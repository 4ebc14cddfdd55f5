import Silksocks.Chain

/-! What an instance does when a read or a write on the connection to the other one fails.  It makes
no more of them, and `socks5_connectproxy` returns an error.  So an instance has sent what it sends
where no call fails, or the beginning of it. -/

namespace Silksocks

open Program Prog Contract Dialogue

/-- Neither a read nor a write of `fd`. -/
def Call.Off (fd : Int) : Call → Prop
  | readn fd' _ | writen fd' _ => fd' ≠ fd
  | _ => True

/-- A read or a write of `fd` that has failed. -/
def fails (fd : Int) : SessionEvent → Bool
  | ⟨.readn fd' _, r⟩ => fd' = fd && Option.isNone r
  | ⟨.writen fd' _, r⟩ => fd' = fd && !r
  | _ => false

/-- The contract of a program that leaves `fd` alone when a call there has failed.  `A` is what may
be assumed of the results of its calls. -/
def leaveAlone (A : SessionEvent → Prop) (fd : Int) : Contract Bool Call.Result where
  demand failed c := failed = true → c.Off fd
  assume _ e := A e
  next failed e := failed || fails fd e

variable {ω α β : Type} {A : SessionEvent → Prop} {fd : Int}

/-- A program that leaves `fd` alone when a call there has failed, and has a result with `B` then. -/
def GivesUp (A : SessionEvent → Prop) (fd : Int) (B : α → Prop) (p : Session α) : Prop :=
  (leaveAlone A fd).wp (fun failed a => failed = true → B a) false p

/-! ### Programs that give up -/

section Rules

variable {B P : α → Prop} {p : Session α} {f : α → Session β}

@[simp] theorem givesUp_done {a : α} : GivesUp A fd B (.done a) := nofun

theorem fails_off {c : Call} {r : c.Result} (hc : c.Off fd) : fails fd ⟨c, r⟩ = false := by
  cases c with
  | readn | writen => exact Bool.and_eq_false_imp.mpr fun h => absurd (of_decide_eq_true h) hc
  | _ => rfl

theorem wp_of_off {failed : Bool} (hoff : p.All (Call.Off fd)) (hends : failed = true → p.Ends B) :
    (leaveAlone A fd).wp (fun failed a => failed = true → B a) failed p := by
  induction p with
  | done a => exact hends
  | call c next ih =>
    refine ⟨fun _ => hoff.1, fun r _ => ?_⟩
    show (leaveAlone A fd).wp _ (failed || fails fd ⟨c, r⟩) _
    rw [fails_off hoff.1, Bool.or_false]
    exact ih r (hoff.2 r) fun h => hends h r

theorem GivesUp.of_off (hoff : p.All (Call.Off fd)) : GivesUp A fd B p :=
  wp_of_off hoff nofun

theorem GivesUp.bind {B : β → Prop} (hp : GivesUp A fd P p) (hf : ∀ a, GivesUp A fd B (f a))
    (hoff : ∀ a, P a → (f a).All (Call.Off fd) ∧ (f a).Ends B) : GivesUp A fd B (p >>= f) := by
  refine wp_bind.mpr (wp_mono hp fun failed a h => ?_)
  cases failed with
  | false => exact hf a
  | true =>
    obtain ⟨hall, hends⟩ := hoff a (h rfl)
    exact wp_of_off hall fun _ => hends

/-- A function whose status is checked: the one that called it returns the error. -/
theorem GivesUp.checked {B : β → Prop} {status : α → Int} {e : α → β}
    (hp : GivesUp A fd (fun a => status a ≠ 0) p) (he : ∀ a, status a ≠ 0 → B (e a))
    (hf : ∀ a, GivesUp A fd B (f a)) :
    GivesUp A fd B (p >>= fun a => if status a ≠ 0 then .done (e a) else f a) := by
  refine hp.bind (fun a => ?_) fun a ha => ?_
  · split
    · exact givesUp_done
    · exact hf a
  · rw [if_pos ha]
    exact ⟨all_done, he a ha⟩

theorem givesUp_call {c : Call} {f : c.Result → Session α} (hc : c.Off fd)
    (h : ∀ r, A ⟨c, r⟩ → GivesUp A fd B (f r)) : GivesUp A fd B (call c >>= f) := by
  refine ⟨nofun, fun r hr => ?_⟩
  show (leaveAlone A fd).wp _ (fails fd ⟨c, r⟩) (f r)
  rw [fails_off hc]
  exact h r hr

theorem givesUp_fault : GivesUp A fd B fault :=
  ⟨nofun, fun r => r.elim⟩

theorem givesUp_readn {fd' : Int} {n : Nat} {next : Option (Bytes n) → Session α} {a : α}
    (hnone : next none = .done a) (ha : B a) (h : ∀ bs, GivesUp A fd B (next (some bs))) :
    GivesUp A fd B (.call (.readn fd' n) next) := by
  refine ⟨nofun, fun r _ => ?_⟩
  cases r with
  | none =>
    rw [hnone]
    exact fun _ => ha
  | some bs =>
    have hfails : fails fd ⟨.readn fd' n, some bs⟩ = false := Bool.and_false _
    show (leaveAlone A fd).wp _ (fails fd ⟨.readn fd' n, some bs⟩) _
    rw [hfails]
    exact h bs

theorem givesUp_readByte {fd' : Int} {f : Option UInt8 → Session α} {a : α}
    (hnone : f none = .done a) (ha : B a) (h : ∀ b, GivesUp A fd B (f (some b))) :
    GivesUp A fd B (readByte fd' >>= f) :=
  givesUp_readn hnone ha fun _ => h _

theorem givesUp_readInto {fd' : Int} {room n : Nat} {f : Option (Bytes n) → Session α} {a : α}
    (hnone : f none = .done a) (ha : B a) (h : ∀ bs, GivesUp A fd B (f (some bs))) :
    GivesUp A fd B (readInto fd' room n >>= f) := by
  refine givesUp_readn hnone ha fun bs => ?_
  dsimp only
  split
  · show GivesUp A fd B (fault >>= f)
    rw [fault_bind]
    exact givesUp_fault
  · exact h bs

theorem givesUp_writen {fd' : Int} {data : List UInt8} {f : Bool → Session α} {a : α}
    (hfalse : f false = .done a) (ha : B a) (h : GivesUp A fd B (f true)) :
    GivesUp A fd B (writen fd' data >>= f) := by
  refine ⟨nofun, fun r _ => ?_⟩
  cases r with
  | false =>
    show (leaveAlone A fd).wp _ _ (f false)
    rw [hfalse]
    exact fun _ => ha
  | true =>
    have hfails : fails fd ⟨.writen fd' data, true⟩ = false := Bool.and_false _
    show (leaveAlone A fd).wp _ (fails fd ⟨.writen fd' data, true⟩) (f true)
    rw [hfails]
    exact h

end Rules

/-! ### The functions of a session -/

section Functions

variable (client : Socks5Cli)

theorem readMethods_givesUp (fd' : Int) (b : Nat) (climethod : UInt8) :
    GivesUp A fd (fun x => x.1 ≠ 0) (readMethods fd' b climethod) := by
  induction b generalizing climethod with
  | zero => exact givesUp_done
  | succ b ih => exact givesUp_readByte rfl Int.one_ne_zero fun a => ih _

theorem socks5Choosemethod_givesUp :
    GivesUp A fd (fun x => x.1 ≠ 0) (socks5Choosemethod client) := by
  refine givesUp_readByte rfl Int.one_ne_zero fun b => ?_
  dsimp only
  split
  · exact givesUp_done
  refine givesUp_readByte rfl Int.one_ne_zero fun b => ?_
  refine (readMethods_givesUp ..).checked (fun _ hst => hst) fun _ => ?_
  exact givesUp_writen rfl Int.one_ne_zero givesUp_done

theorem socks5Readauth_givesUp :
    GivesUp A fd (fun x => x.1 ≠ 0) (socks5Readauth client) := by
  refine givesUp_readByte rfl Int.one_ne_zero fun b => ?_
  dsimp only
  split
  · exact givesUp_done
  refine givesUp_readByte rfl Int.one_ne_zero fun b => ?_
  refine givesUp_readInto rfl Int.one_ne_zero fun user => ?_
  refine givesUp_readByte rfl Int.one_ne_zero fun b => ?_
  refine givesUp_readInto rfl Int.one_ne_zero fun passwd => ?_
  exact givesUp_writen rfl Int.one_ne_zero givesUp_done

theorem resolve_off (request : Sockaddr) (host : List UInt8) :
    (resolve request host).All (Call.Off fd) :=
  (resolve_all request host).mono fun c hc => by cases c <;> trivial

theorem socks5Readrequest_givesUp :
    GivesUp A fd (fun x => x.1 ≠ 0) (socks5Readrequest client) := by
  refine givesUp_readByte rfl Int.one_ne_zero fun b => ?_
  dsimp only
  split
  · exact givesUp_done
  refine givesUp_readByte rfl Int.one_ne_zero fun b => ?_
  dsimp only
  split
  · exact givesUp_done
  refine givesUp_readByte rfl Int.one_ne_zero fun b => ?_
  refine givesUp_readByte rfl Int.one_ne_zero fun b => ?_
  dsimp only
  split
  · refine givesUp_readInto rfl Int.one_ne_zero fun addr => ?_
    exact givesUp_readInto rfl Int.one_ne_zero fun port => givesUp_done
  · refine givesUp_readByte rfl Int.one_ne_zero fun b => ?_
    refine givesUp_readInto rfl Int.one_ne_zero fun name => ?_
    refine GivesUp.bind (P := fun _ => False) (.of_off (resolve_off ..)) (fun request => ?_) nofun
    cases request with
    | none => exact givesUp_done
    | some request => exact givesUp_readInto rfl Int.one_ne_zero fun port => givesUp_done
  · refine givesUp_readInto rfl Int.one_ne_zero fun addr => ?_
    exact givesUp_readInto rfl Int.one_ne_zero fun port => givesUp_done
  · exact givesUp_done

theorem socks5Readreply_givesUp : GivesUp A fd (· ≠ 0) (socks5Readreply client) := by
  refine givesUp_readInto rfl (by decide) fun buf => ?_
  dsimp only
  split
  · split
    · exact givesUp_done
    split
    · exact givesUp_readInto rfl (by decide) fun _ => givesUp_done
    · refine givesUp_readByte rfl (by decide) fun b => ?_
      exact givesUp_readInto rfl (by decide) fun _ => givesUp_done
    · exact givesUp_readInto rfl (by decide) fun _ => givesUp_done
    · exact givesUp_done
  · exact givesUp_done

theorem socks5Writereply_givesUp (status : Int) :
    GivesUp A fd (fun _ => True) (socks5Writereply client status) := by
  refine givesUp_call trivial fun ss _ => ?_
  cases ss with
  | none => exact givesUp_done
  | some ss => exact givesUp_writen rfl trivial givesUp_done

theorem socks5Writerequest_givesUp : GivesUp A fd (· ≠ 0) (socks5Writerequest client) :=
  givesUp_writen rfl (by decide) givesUp_done

theorem proxyCreds_off (proxyip : UInt32) (proxyport : UInt16) :
    (proxyCreds proxyip proxyport).All (Call.Off fd) :=
  (proxyCreds_all proxyip proxyport).mono fun c hc => by cases c <;> trivial

theorem socks5Connectproxy_givesUp :
    GivesUp A fd (fun x => x.1 ≠ 0) (socks5Connectproxy client) := by
  have hfour : (4 : Int) ≠ 0 := by decide
  refine givesUp_call trivial fun proxyfd _ => ?_
  dsimp only
  split
  · exact givesUp_done
  refine givesUp_call trivial fun connected _ => ?_
  split
  · exact givesUp_done
  refine givesUp_writen rfl hfour (givesUp_readInto rfl hfour fun buf => ?_)
  dsimp only
  split
  · exact givesUp_done
  refine GivesUp.bind (P := fun _ => False) (.of_off (proxyCreds_off ..)) (fun creds => ?_) nofun
  cases creds with
  | none => exact givesUp_done
  | some creds =>
  dsimp only
  split
  · refine givesUp_writen rfl hfour (givesUp_readInto rfl hfour fun buf => ?_)
    dsimp only
    split
    · exact givesUp_done
    refine (socks5Writerequest_givesUp _).checked (fun _ hst => hst) fun _ => ?_
    exact (socks5Readreply_givesUp _).bind (fun _ => givesUp_done) fun _ hst => ⟨all_done, hst⟩
  · exact givesUp_fault

theorem Call.Local.off {c : Call} (h : c.Local fd) : c.Off fd := by
  cases c <;> first | exact h | trivial

theorem givesUp_noted {B : α → Prop} {fn : Fn} {status : α → Int} {p : Session α}
    (hp : GivesUp A fd B p) : GivesUp A fd B (noted fn status p) := by
  refine givesUp_call trivial fun _ _ => hp.bind (fun a => ?_) fun a ha => ?_
  · exact givesUp_call trivial fun _ _ => givesUp_done
  · exact ⟨⟨trivial, fun _ => all_done⟩, fun _ => ha⟩

theorem authenticate_givesUp (method : UInt8) :
    GivesUp A fd (fun x => x.1 ≠ 0) (authenticate client method) := by
  unfold authenticate
  split
  · refine (givesUp_noted (socks5Readauth_givesUp _)).checked (fun _ hst => hst) fun _ => ?_
    refine .of_off (.bind (noted_all all_done trivial fun _ => trivial) ?_)
    rintro ⟨status, client⟩
    dsimp only
    split
    · exact all_done
    refine .bind (noted_all ?_ trivial fun _ => trivial) fun _ => all_done
    exact (socks5Doauth_all _).mono fun c hc => by cases c <;> trivial
  · split <;> exact givesUp_done

/-- What is done for a request keeps off the client where the new socket is another descriptor. -/
theorem serveRequest_givesUp (hA : ∀ pfd : Int, A ⟨.socket, pfd⟩ → pfd ≠ fd) :
    GivesUp A fd (fun _ => True) (serveRequest client) := by
  unfold serveRequest
  split
  · have hconnect : GivesUp A fd (fun _ => False) (socks5Connectproxy client) := by
      obtain ⟨rest, heq, hrest⟩ := socks5Connectproxy_all client
      rw [heq]
      refine givesUp_call (c := .socket) trivial fun pfd hpfd => .of_off ?_
      exact (hrest pfd).1.mono fun c hc => (hc.local (hA pfd hpfd)).off
    refine (givesUp_noted hconnect).bind ?_ nofun
    rintro ⟨status, client⟩
    dsimp only
    split
    · refine (socks5Writereply_givesUp ..).bind (fun _ => givesUp_done) fun _ _ => ?_
      exact ⟨all_done, ends_true⟩
    · have hrest : ∀ status : Int, (if status ≠ 0 then pure (status, client)
          else do
            let status ← call (.negotiate client.clientfd client.proxyfd)
            return (status, client) : Session (Int × Socks5Cli)).All (Call.Off fd) := by
        intro status
        split
        · exact all_done
        · exact ⟨trivial, fun _ => all_done⟩
      refine (socks5Writereply_givesUp ..).bind (fun status => .of_off (hrest status)) ?_
      exact fun status _ => ⟨hrest status, ends_true⟩
  · exact givesUp_done

theorem socks5Run_givesUp (hA : ∀ pfd : Int, A ⟨.socket, pfd⟩ → pfd ≠ fd) (clientfd : Int) :
    GivesUp A fd (fun _ => True) (socks5Run clientfd) := by
  have hclose : ∀ x : Option Int × Socks5Cli, (do
      call (.close x.2.clientfd)
      call (.close x.2.proxyfd)
      return x.1 : Session (Option Int)).All (Call.Off fd) :=
    fun x => ⟨trivial, fun _ => ⟨trivial, fun _ => all_done⟩⟩
  have hserve : GivesUp A fd (fun _ => True) (serve (.start clientfd)) := by
    refine givesUp_call trivial fun ok _ => ?_
    split
    · exact givesUp_done
    refine (givesUp_noted (socks5Choosemethod_givesUp _)).checked (fun _ _ => trivial) fun _ => ?_
    refine (authenticate_givesUp ..).checked (fun _ _ => trivial) fun _ => ?_
    refine (givesUp_noted (socks5Readrequest_givesUp _)).checked (fun _ _ => trivial) fun _ => ?_
    refine (serveRequest_givesUp _ hA).bind (fun _ => givesUp_done) fun _ _ => ?_
    exact ⟨all_done, ends_true⟩
  exact hserve.bind (fun x => .of_off (hclose x)) fun x _ => ⟨hclose x, ends_true⟩

end Functions

/-! ### Runs in which a call fails -/

section Runs

variable {host : Host ω} {B : α → Prop} {c : Call} {p q : Session α} {l : Wired ω} {i o : List UInt8}
  {s : Wired ω × List UInt8 × List UInt8}

theorem Host.wire_off {r : c.Result} (hc : c.Off fd)
    (h : (host.wire fd).env c (l, i, o) = some (r, s)) : s.2.2 = o := by
  by_cases hlocal : c.Local fd
  · rw [Host.wire_local_eq hlocal l.fails] at h
    obtain ⟨x, -, hx⟩ := Option.map_eq_some_iff.mp h
    cases hx
    rfl
  · obtain ⟨x, hx, heq⟩ := Option.map_eq_some_iff.mp h
    cases heq
    cases c with
    | readn | writen => exact absurd hc hlocal
    | enter | leave =>
      cases hx
      exact List.append_nil _
    | negotiate => cases hx
    | _ => exact absurd trivial hlocal

/-- A call that does not fail has the answer that it has where no call fails. -/
theorem Host.wire_whole {r : c.Result} (hr : fails fd ⟨c, r⟩ = false)
    (h : (host.wire fd).env c (l, i, o) = some (r, s)) :
    (host.wire fd).env c (⟨l.world, []⟩, i, o) = some (r, ⟨s.1.world, []⟩, s.2) := by
  by_cases hlocal : c.Local fd
  · rw [Host.wire_local_eq hlocal l.fails] at h
    obtain ⟨x, hx, heq⟩ := Option.map_eq_some_iff.mp h
    cases heq
    exact Host.wire_local hlocal hx
  cases c with
  | readn fd' n =>
    obtain rfl := not_not.mp hlocal
    rcases Host.wire_readn h with ⟨k, -, rfl, rfl⟩ | ⟨bs, rest, rfl, rfl, rfl⟩
    · simp [fails] at hr
    · exact Host.wire_read bs rest
  | writen fd' data =>
    obtain rfl := not_not.mp hlocal
    rcases Host.wire_writen h with ⟨k, -, rfl, rfl⟩ | ⟨rfl, rfl⟩
    · simp [fails] at hr
    · exact Host.wire_write
  | enter | leave =>
    cases h
    rfl
  | negotiate => cases h
  | _ => exact absurd trivial hlocal

/-- What is sent with a call that fails. -/
theorem Host.wire_fails {r : c.Result} (hr : fails fd ⟨c, r⟩ = true)
    (h : (host.wire fd).env c (l, i, o) = some (r, s)) :
    (∀ a b, c ≠ .negotiate a b) ∧
      (s.2.2 = o ∨ ∃ data k, c = .writen fd data ∧ k < data.length ∧ s.2.2 = o ++ data.take k) := by
  cases c with
  | readn fd' n =>
    obtain rfl : fd' = fd := of_decide_eq_true (Bool.and_eq_true_iff.mp hr).1
    rcases Host.wire_readn h with ⟨k, -, rfl, rfl⟩ | ⟨bs, rest, rfl, rfl, rfl⟩
    · exact ⟨nofun, .inl rfl⟩
    · exact ⟨nofun, .inl rfl⟩
  | writen fd' data =>
    obtain rfl : fd' = fd := of_decide_eq_true (Bool.and_eq_true_iff.mp hr).1
    rcases Host.wire_writen h with ⟨k, hk, rfl, rfl⟩ | ⟨rfl, rfl⟩
    · refine ⟨nofun, ?_⟩
      by_cases hlen : k < data.length
      · exact .inr ⟨data, k, rfl, hlen, rfl⟩
      · have hnil : data = [] := List.length_eq_zero_iff.mp (by omega)
        exact .inl (by simp [hnil])
    · simp [fails] at hr
  | _ => cases hr

/-- What is sent where all calls keep off the connection, and what is left to do there. -/
theorem goes_silent {Q : Bool → α → Prop}
    (hA : ∀ c s r s', (host.wire fd).env c s = some (r, s') → A ⟨c, r⟩)
    (hp : (leaveAlone A fd).wp Q true p) (h : p.Goes (host.wire fd).env (l, i, o) q s) :
    s.2.2 = o ∧ (leaveAlone A fd).wp Q true q := by
  induction p generalizing l i with
  | done a =>
    obtain ⟨t, hrun, ht⟩ := h
    obtain ⟨rfl, rfl⟩ := runs_done.mp hrun
    cases ht
    exact ⟨rfl, hp⟩
  | call c next ih =>
    rcases h.call_inv with ⟨rfl, rfl⟩ | ⟨r, ⟨l1, i1, o1⟩, hcall, hnext⟩
    · exact ⟨rfl, hp⟩
    obtain rfl : o1 = o := Host.wire_off (hp.1 rfl) hcall
    exact ih r (hp.2 r (hA _ _ _ _ hcall)) hnext

/-- A program that gives up has gone on as where no call fails, or has done so up to the first call
that has failed.  It has sent nothing after this one. -/
theorem GivesUp.goes (hA : ∀ c s r s', (host.wire fd).env c s = some (r, s') → A ⟨c, r⟩)
    (hp : GivesUp A fd B p) (h : p.Goes (host.wire fd).env (l, i, o) q s) :
    p.Goes (host.wire fd).env (⟨l.world, []⟩, i, o) q (⟨s.1.world, []⟩, s.2) ∨
    (leaveAlone A fd).wp (fun failed a => failed = true → B a) true q ∧
      ∃ c next w i' o', (∀ a b, c ≠ .negotiate a b) ∧
        p.Goes (host.wire fd).env (⟨l.world, []⟩, i, o) (.call c next) (⟨w, []⟩, i', o') ∧
        (s.2.2 = o' ∨
          ∃ data k, c = .writen fd data ∧ k < data.length ∧ s.2.2 = o' ++ data.take k) := by
  induction p generalizing l i o with
  | done a =>
    obtain ⟨t, hrun, ht⟩ := h
    obtain ⟨rfl, rfl⟩ := runs_done.mp hrun
    cases ht
    exact .inl ⟨[], .nil _, .nil _⟩
  | call c next ih =>
    rcases h.call_inv with ⟨rfl, rfl⟩ | ⟨r, ⟨l1, i1, o1⟩, hcall, h⟩
    · exact .inl ⟨[], .nil _, .nil _⟩
    have hnext : (leaveAlone A fd).wp _ (fails fd ⟨c, r⟩) (next r) := hp.2 r (hA _ _ _ _ hcall)
    cases hfails : fails fd ⟨c, r⟩ with
    | false =>
      have hwhole := Host.wire_whole hfails hcall
      rw [hfails] at hnext
      rcases ih r hnext h with h | ⟨hq, c', next', w, i', o', hc', h, hsent⟩
      · exact .inl (h.cons hwhole)
      · exact .inr ⟨hq, c', next', w, i', o', hc', h.cons hwhole, hsent⟩
    | true =>
      obtain ⟨hc, hsent⟩ := Host.wire_fails hfails hcall
      rw [hfails] at hnext
      obtain ⟨ho, hq⟩ := goes_silent hA hnext h
      rw [← ho] at hsent
      exact .inr ⟨hq, c, next, l.world, i, o, hc, ⟨[], .nil _, .nil _⟩, hsent⟩

end Runs

end Silksocks
