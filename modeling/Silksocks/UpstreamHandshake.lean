import Silksocks.ProxyCreds

/-! The handshake of `socks5_connectproxy` with an upstream proxy that sends any bytes.  It succeeds
exactly on the well-formed answers and takes just their bytes, but for three kinds of input: a reply
of another version with the status 0 is taken for a success, a bound name of 255 bytes overflows the
buffer for the reply, and a user or password whose length is negative as a `char` is copied with a
size that is out of range. -/

namespace Silksocks

open Program Prog

/-! ### The surroundings of a handshake -/

/-- What the calls of a handshake return, but for reads: a socket, the credentials from `cacheip` or
from the database, the address for the client's reply, and the status of the relay. -/
structure Upstream where
  fd : Int
  cached : Option Creds
  stored : Creds
  bound : Option Sockaddr
  relay : Int
  connected : fd ≠ -1

namespace Upstream

/-- The credentials that are found. -/
def creds (upstream : Upstream) : Creds := upstream.cached.getD upstream.stored

/-- The calls that find them. -/
def lookups (upstream : Upstream) (ip : UInt32) (port : UInt16) : List Call :=
  if upstream.cached.isSome then [.cacheGetip ip]
  else [.cacheGetip ip, .sqlgetProxycreds ip port 1, .cachePutip ip upstream.stored]

/-- The bytes that the upstream still has to send, and the calls made so far. -/
structure State where
  input : List UInt8
  calls : List Call

/-- Connecting and all writes succeed, and a read from the socket gets the next bytes of the upstream
or fails at their end.  Nothing else is read from. -/
def env (upstream : Upstream) : (c : Call) → State → Option (c.Result × State)
  | .readn fd n, ⟨input, calls⟩ =>
    if fd ≠ upstream.fd then none
    else if h : n ≤ input.length then
      some (some ⟨input.take n, List.length_take_of_le h⟩,
        ⟨input.drop n, calls ++ [.readn fd n]⟩)
    else some (none, ⟨[], calls ++ [.readn fd n]⟩)
  | .writen fd b, ⟨input, calls⟩ => some (true, ⟨input, calls ++ [.writen fd b]⟩)
  | .socket, ⟨input, calls⟩ => some (upstream.fd, ⟨input, calls ++ [.socket]⟩)
  | .connectNonb fd sa, ⟨input, calls⟩ => some (true, ⟨input, calls ++ [.connectNonb fd sa]⟩)
  | .cacheGetip ip, ⟨input, calls⟩ => some (upstream.cached, ⟨input, calls ++ [.cacheGetip ip]⟩)
  | .sqlgetProxycreds ip port status, ⟨input, calls⟩ =>
    some (some upstream.stored, ⟨input, calls ++ [.sqlgetProxycreds ip port status]⟩)
  | .cachePutip ip c, ⟨input, calls⟩ => some ((), ⟨input, calls ++ [.cachePutip ip c]⟩)
  | .getsockname fd, ⟨input, calls⟩ => some (upstream.bound, ⟨input, calls ++ [.getsockname fd]⟩)
  | .negotiate fd fd', ⟨input, calls⟩ => some (upstream.relay, ⟨input, calls ++ [.negotiate fd fd']⟩)
  | .enter f, ⟨input, calls⟩ => some ((), ⟨input, calls ++ [.enter f]⟩)
  | .leave f status, ⟨input, calls⟩ => some ((), ⟨input, calls ++ [.leave f status]⟩)
  | _, _ => none

section Env

variable {upstream : Upstream} {fd : Int} {n : Nat} {bs input : List UInt8} {calls : List Call}

@[simp] theorem env_socket : upstream.env .socket ⟨input, calls⟩ =
    some (upstream.fd, ⟨input, calls ++ [.socket]⟩) := rfl

@[simp] theorem env_connectNonb {sa : Sockaddr} : upstream.env (.connectNonb fd sa) ⟨input, calls⟩ =
    some (true, ⟨input, calls ++ [.connectNonb fd sa]⟩) := rfl

@[simp] theorem env_writen : upstream.env (.writen fd bs) ⟨input, calls⟩ =
    some (true, ⟨input, calls ++ [.writen fd bs]⟩) := rfl

theorem env_readn (h : bs.length = n) :
    upstream.env (.readn upstream.fd n) ⟨bs ++ input, calls⟩ =
      some (some ⟨bs, h⟩, ⟨input, calls ++ [.readn upstream.fd n]⟩) := by
  subst h
  simp [env]

theorem env_readn_short (h : input.length < n) :
    upstream.env (.readn upstream.fd n) ⟨input, calls⟩ =
      some (none, ⟨[], calls ++ [.readn upstream.fd n]⟩) := by
  rw [env, if_neg (not_not.mpr rfl), dif_neg (by omega)]

@[simp] theorem eval_fault {α : Type} (upstream : Upstream) (s : State) :
    (fault : Session α).eval upstream.env s = none := rfl

theorem env_calls {c : Call} {r : c.Result} {s s' : State} (h : upstream.env c s = some (r, s')) :
    s'.calls = s.calls ++ [c] := by
  cases c <;> simp only [env, reduceCtorEq, Option.some.injEq, Prod.mk.injEq] at h
  case readn =>
    split at h
    · cases h
    split at h <;> cases h <;> rfl
  all_goals rw [← h.2]

theorem env_read_one {a : UInt8} : upstream.env (.readn upstream.fd 1) ⟨a :: input, calls⟩ =
    some (some (.ofByte a), ⟨input, calls ++ [.readn upstream.fd 1]⟩) := by
  have h : [a].length = 1 := rfl
  exact env_readn h

theorem env_read_two {a b : UInt8} : upstream.env (.readn upstream.fd 2) ⟨a :: b :: input, calls⟩ =
    some (some ⟨[a, b], rfl⟩, ⟨input, calls ++ [.readn upstream.fd 2]⟩) := by
  have h : [a, b].length = 2 := rfl
  exact env_readn h

theorem env_read_four {a b c d : UInt8} :
    upstream.env (.readn upstream.fd 4) ⟨a :: b :: c :: d :: input, calls⟩ =
      some (some ⟨[a, b, c, d], rfl⟩, ⟨input, calls ++ [.readn upstream.fd 4]⟩) := by
  have h : [a, b, c, d].length = 4 := rfl
  exact env_readn h

theorem env_readn_append {bs' : List UInt8} (h : (bs ++ bs').length = n) :
    upstream.env (.readn upstream.fd n) ⟨bs ++ (bs' ++ input), calls⟩ =
      some (some ⟨bs ++ bs', h⟩, ⟨input, calls ++ [.readn upstream.fd n]⟩) := by
  rw [← List.append_assoc]
  exact env_readn h

end Env

end Upstream

/-! ### Well-formed answers -/

/-- `BND.ADDR` and `BND.PORT` of a reply, and then `rest`. -/
def Bound (atyp : UInt8) (X rest : List UInt8) : Prop :=
  ∃ addr port, BoundAddr atyp addr ∧ port.length = 2 ∧ X = addr ++ port ++ rest

/-- A complete reply with the status 0, and then `rest`. -/
def SuccessReply (W rest : List UInt8) : Prop :=
  ∃ rsv atyp X, W = [5, 0, rsv, atyp] ++ X ∧ Bound atyp X rest

/-- `U` accepts the method and the credentials, and then the request. -/
def WellFormed (U rest : List UInt8) : Prop :=
  ∃ W, U = [5, 2, 1, 0] ++ W ∧ SuccessReply W rest

/-! ### The reply -/

/-- `socks5_readreply` as `socks5_connectproxy` calls it, from the socket. -/
abbrev Upstream.readreply (upstream : Upstream) (client : Socks5Cli) : Session Int :=
  socks5Readreply { client with proxyfd := upstream.fd }

section Readreply

variable (upstream : Upstream) (client : Socks5Cli) (calls : List Call) {ver rep rsv atyp : UInt8}
  {W X rest : List UInt8}

attribute [local simp] call readByte writen readInto_of_le Prog.eval_bind Upstream.env_read_one
  Upstream.env_read_two Upstream.env_read_four

theorem readreply_short (h : W.length < 4) :
    ∃ s, (upstream.readreply client).eval upstream.env ⟨W, calls⟩ = some (4, s) := by
  simp [socks5Readreply, Upstream.env_readn_short h]

/-- A reply of another version or status: its status is returned. -/
theorem readreply_status (rsv atyp : UInt8) (X : List UInt8)
    (h : ver ≠ 5 ∨ rep ≠ 0) :
    ∃ s, (upstream.readreply client).eval upstream.env ⟨ver :: rep :: rsv :: atyp :: X, calls⟩ =
      some ((rep.toNat : Int), s) := by
  simp [socks5Readreply, h]

theorem readreply_undefined (h : atyp ≠ 1 ∧ atyp ≠ 3 ∧ atyp ≠ 4) :
    ∃ s, (upstream.readreply client).eval upstream.env ⟨5 :: 0 :: rsv :: atyp :: X, calls⟩ =
      some (8, s) := by
  simp [socks5Readreply, h]

theorem readreply_bound (rsv : UInt8) (h : Bound atyp X rest)
    (hfit : atyp = 3 → X.head? ≠ some 255) :
    ∃ calls', (upstream.readreply client).eval upstream.env ⟨5 :: 0 :: rsv :: atyp :: X, calls⟩ =
      some (0, ⟨rest, calls'⟩) := by
  obtain ⟨addr, port, haddr, hport, rfl⟩ := h
  cases haddr with
  | ipv4 h =>
    have hlen : (addr ++ port).length = 6 := by simp [h, hport]
    simp [socks5Readreply, Upstream.env_readn_append hlen]
  | @name len name h =>
    have hlen : (name ++ port).length = len.toNat + 2 := by simp [h, hport]
    have hroom : len.toNat + 2 ≤ 256 := by
      have hne : len.toNat ≠ 255 := fun heq => hfit rfl (by simp [← UInt8.toNat_inj, heq])
      have := len.toNat_lt
      omega
    simp [socks5Readreply, readInto_of_le hroom, Upstream.env_readn_append hlen]
  | ipv6 h =>
    have hlen : (addr ++ port).length = 18 := by simp [h, hport]
    simp [socks5Readreply, Upstream.env_readn_append hlen]

theorem bound_of_le {n : Nat} (front : List UInt8)
    (haddr : ∀ addr, addr.length = n → BoundAddr atyp (front ++ addr)) (h : n + 2 ≤ X.length) :
    Bound atyp (front ++ X) (X.drop (n + 2)) := by
  refine ⟨front ++ X.take n, (X.drop n).take 2, haddr _ ?_, ?_, ?_⟩
  · exact List.length_take_of_le (by omega)
  · simp only [List.length_take, List.length_drop]
    omega
  · rw [← List.drop_drop]
    simp only [List.append_assoc, List.take_append_drop]

theorem readreply_unbound (rsv : UInt8)
    (h : ∀ rest, ¬ Bound atyp X rest) :
    ∃ status s, (upstream.readreply client).eval upstream.env ⟨5 :: 0 :: rsv :: atyp :: X, calls⟩ =
      some (status, s) ∧ (status = 2 ∨ status = 8) := by
  by_cases hatyp : atyp ≠ 1 ∧ atyp ≠ 3 ∧ atyp ≠ 4
  · obtain ⟨s, hs⟩ := readreply_undefined upstream client calls hatyp
    exact ⟨8, s, hs, .inr rfl⟩
  refine ⟨2, ?_⟩
  simp only [true_or, and_true]
  by_cases h1 : atyp = 1
  · subst h1
    have hlen : X.length < 6 :=
      Nat.lt_of_not_le fun hle => h _ (bound_of_le [] (fun _ => .ipv4) hle)
    simp [socks5Readreply, Upstream.env_readn_short hlen]
  by_cases h4 : atyp = 4
  · subst h4
    have hlen : X.length < 18 :=
      Nat.lt_of_not_le fun hle => h _ (bound_of_le [] (fun _ => .ipv6) hle)
    simp [socks5Readreply, Upstream.env_readn_short hlen]
  obtain rfl : atyp = 3 := by tauto
  cases X with
  | nil =>
    have hlen : ([] : List UInt8).length < 1 := Nat.one_pos
    simp [socks5Readreply, Upstream.env_readn_short hlen]
  | cons len X =>
    have hlen : X.length < len.toNat + 2 :=
      Nat.lt_of_not_le fun hle => h _ (bound_of_le [len] (fun _ => .name) hle)
    simp [socks5Readreply, readInto, Upstream.env_readn_short hlen]

/-- A name of 255 bytes and a port are one byte too many for the buffer. -/
theorem readreply_overflow {data : List UInt8}
    (h : data.length = 257) :
    (upstream.readreply client).eval upstream.env ⟨5 :: 0 :: rsv :: 3 :: 255 :: (data ++ X), calls⟩ =
      none := by
  simp [socks5Readreply, readInto, Upstream.env_readn h]
  rfl

/-- The replies that `socks5_readreply` gets wrong. -/
inductive MisreadReply (W : List UInt8) : Prop
  /-- A reply of another version, with the status 0. -/
  | version {ver rsv atyp : UInt8} {X : List UInt8} (hver : ver ≠ 5)
    (h : W = [ver, 0, rsv, atyp] ++ X)
  /-- A name of 255 bytes and a port. -/
  | overflow {rsv : UInt8} {data X : List UInt8} (hdata : data.length = 257)
    (h : W = [5, 0, rsv, 3, 255] ++ (data ++ X))

theorem MisreadReply.readreply (h : MisreadReply W) :
    (upstream.readreply client).eval upstream.env ⟨W, calls⟩ = none ∨
      (∃ s, (upstream.readreply client).eval upstream.env ⟨W, calls⟩ = some (0, s)) ∧
        ∀ rest, ¬ SuccessReply W rest := by
  cases h with
  | version hver h =>
    subst h
    refine .inr ⟨readreply_status upstream client calls _ _ _ (.inl hver), ?_⟩
    rintro rest ⟨rsv, atyp, X, heq, -⟩
    exact hver (List.cons.inj heq).1
  | @overflow rsv data X hdata h =>
    subst h
    exact .inl (readreply_overflow upstream client calls (X := X) hdata)

theorem Bound.fits (h : Bound 3 X rest) (hfull : X.head? = some 255) :
    ∃ data X', data.length = 257 ∧ X = 255 :: (data ++ X') := by
  obtain ⟨addr, port, haddr, hport, rfl⟩ := h
  cases haddr with
  | @name len name h =>
    obtain rfl : len = 255 := by simpa using hfull
    exact ⟨name ++ port, rest, by simp [h, hport], by simp⟩

theorem readreply_cases (h : ¬ MisreadReply W) :
    (∃ rest calls', SuccessReply W rest ∧
      (upstream.readreply client).eval upstream.env ⟨W, calls⟩ = some (0, ⟨rest, calls'⟩)) ∨
    (∀ rest, ¬ SuccessReply W rest) ∧ ∃ status s, 0 < status ∧ status < 256 ∧
      (upstream.readreply client).eval upstream.env ⟨W, calls⟩ = some (status, s) := by
  by_cases hlen : W.length < 4
  · obtain ⟨s, hs⟩ := readreply_short upstream client calls hlen
    refine .inr ⟨?_, 4, s, by decide, by decide, hs⟩
    rintro rest ⟨rsv, atyp, X, rfl, -⟩
    simp only [List.length_append, List.length_cons] at hlen
    omega
  obtain ⟨ver, rep, rsv, atyp, X, rfl⟩ : ∃ ver rep rsv atyp X, W = ver :: rep :: rsv :: atyp :: X := by
    rcases W with _ | ⟨ver, _ | ⟨rep, _ | ⟨rsv, _ | ⟨atyp, X⟩⟩⟩⟩ <;> simp at hlen ⊢
  by_cases hrep : rep ≠ 0
  · obtain ⟨s, hs⟩ := readreply_status upstream client calls rsv atyp X (.inr hrep)
    have hpos : rep.toNat ≠ 0 := fun heq => hrep (UInt8.toNat_inj.mp heq)
    have hlt := rep.toNat_lt
    refine .inr ⟨?_, rep.toNat, s, by omega, by omega, hs⟩
    rintro rest ⟨rsv, atyp, X, heq, -⟩
    simp_all
  obtain rfl : rep = 0 := not_not.mp hrep
  obtain rfl : ver = 5 := by_contra fun hver => h (.version hver rfl)
  by_cases hbound : ∃ rest, Bound atyp X rest
  · obtain ⟨rest, hrest⟩ := hbound
    have hfit : atyp = 3 → X.head? ≠ some 255 := by
      rintro rfl hfull
      obtain ⟨data, X', hdata, rfl⟩ := hrest.fits hfull
      exact h (.overflow hdata rfl)
    obtain ⟨calls', heval⟩ := readreply_bound upstream client calls rsv hrest hfit
    exact .inl ⟨rest, calls', ⟨rsv, atyp, X, rfl, hrest⟩, heval⟩
  · obtain ⟨status, s, hs, hstatus⟩ := readreply_unbound upstream client calls rsv
      (not_exists.mp hbound)
    refine .inr ⟨?_, status, s, by omega, by omega, hs⟩
    rintro rest ⟨rsv', atyp', X', heq, hrest⟩
    obtain ⟨-, rfl, rfl⟩ : rsv = rsv' ∧ atyp = atyp' ∧ X = X' := by simpa using heq
    exact hbound ⟨rest, hrest⟩

end Readreply

/-! ### The handshake -/

section Connect

variable (upstream : Upstream) (client : Socks5Cli) (calls : List Call) {U V W : List UInt8}

attribute [local simp] call readByte writen readInto_of_le Prog.eval_bind Upstream.env_read_one
  Upstream.env_read_two Upstream.env_read_four

@[local simp] theorem proxyCreds_eval (ip : UInt32) (port : UInt16) :
    (proxyCreds ip port).eval upstream.env ⟨U, calls⟩ =
      some (some upstream.creds, ⟨U, calls ++ upstream.lookups ip port⟩) := by
  cases h : upstream.cached <;> simp [proxyCreds, Upstream.env, Upstream.creds, Upstream.lookups, h]

theorem connectproxy_refused (h : ¬ [5, 2] <+: U) :
    ∃ s, (socks5Connectproxy client).eval upstream.env ⟨U, calls⟩ =
      some ((4, { client with proxyfd := upstream.fd }), s) := by
  match U, h with
  | [], h => simp [socks5Connectproxy, upstream.connected, Upstream.env_readn_short]
  | [a], h => simp [socks5Connectproxy, upstream.connected, Upstream.env_readn_short]
  | a :: b :: V, h =>
    have hne : ¬ (a = 5 ∧ b = 2) := fun hab => h (by simp [hab])
    simp [socks5Connectproxy, upstream.connected, hne]

theorem connectproxy_unencodable (h : authMessage upstream.creds = none) :
    (socks5Connectproxy client).eval upstream.env ⟨5 :: 2 :: V, calls⟩ = none := by
  simp [socks5Connectproxy, upstream.connected, h]

theorem connectproxy_unauthenticated {data : List UInt8}
    (hdata : authMessage upstream.creds = some data) (h : ¬ [1, 0] <+: V) :
    ∃ status s, (socks5Connectproxy client).eval upstream.env ⟨5 :: 2 :: V, calls⟩ =
      some ((status, { client with proxyfd := upstream.fd }), s) ∧ (status = 4 ∨ status = 5) := by
  match V, h with
  | [], h => simp [socks5Connectproxy, upstream.connected, hdata, Upstream.env_readn_short]
  | [a], h => simp [socks5Connectproxy, upstream.connected, hdata, Upstream.env_readn_short]
  | a :: b :: V, h =>
    have hne : ¬ (a = 1 ∧ b = 0) := fun hab => h (by simp [hab])
    simp [socks5Connectproxy, upstream.connected, hdata, hne]

/-- An upstream that has accepted the credentials gets the request, and what it answers decides. -/
theorem connectproxy_authenticated {data : List UInt8}
    (hdata : authMessage upstream.creds = some data) :
    ∃ calls', (socks5Connectproxy client).eval upstream.env ⟨5 :: 2 :: 1 :: 0 :: W, calls⟩ =
      ((upstream.readreply client).eval upstream.env ⟨W, calls'⟩).map
        fun x => ((x.1, { client with proxyfd := upstream.fd }), x.2) := by
  simp [socks5Connectproxy, socks5Writerequest, upstream.connected, hdata, Option.map_eq_bind]
  exact ⟨_, rfl⟩

end Connect

/-! ### What goes wrong -/

/-- Lengths whose bytes are negative as a `char`. -/
def Creds.Long (creds : Creds) : Prop :=
  127 < creds.user.length % 256 ∨ 127 < creds.passwd.length % 256

theorem schar_neg (n : Nat) : schar (UInt8.ofNat n) < 0 ↔ 127 < n % 256 := by
  have hlt : UInt8.ofNat n < 128 ↔ n % 256 < 128 := by simp [UInt8.lt_iff_toNat_lt]
  unfold schar
  split
  next h =>
    have := hlt.mp h
    omega
  next h =>
    have := mt hlt.mpr h
    have : (UInt8.ofNat n).toNat = n % 256 := by simp
    omega

theorem authMessage_none {creds : Creds} : authMessage creds = none ↔ creds.Long := by
  simp [authMessage, schar_neg, Creds.Long, or_iff_not_imp_left]

/-- The answers that `socks5_connectproxy` gets wrong. -/
inductive Misread (upstream : Upstream) (U : List UInt8) : Prop
  /-- The method is accepted, and the credentials cannot be encoded. -/
  | unencodable {V : List UInt8} (hlong : upstream.creds.Long) (h : U = [5, 2] ++ V)
  | reply {W : List UInt8} (h : U = [5, 2, 1, 0] ++ W) (hreply : MisreadReply W)

section Outcome

variable {upstream : Upstream} (client : Socks5Cli) (calls : List Call) {U W : List UInt8}

theorem connectproxy_reply (hlong : ¬ upstream.creds.Long) :
    ∃ calls', (socks5Connectproxy client).eval upstream.env ⟨5 :: 2 :: 1 :: 0 :: W, calls⟩ =
      ((upstream.readreply client).eval upstream.env ⟨W, calls'⟩).map
        fun x => ((x.1, { client with proxyfd := upstream.fd }), x.2) := by
  obtain ⟨data, hdata⟩ := Option.ne_none_iff_exists'.mp (mt authMessage_none.mp hlong)
  exact connectproxy_authenticated upstream client calls hdata

theorem Misread.connectproxy (h : Misread upstream U) :
    (socks5Connectproxy client).eval upstream.env ⟨U, calls⟩ = none ∨
      (∃ c s, (socks5Connectproxy client).eval upstream.env ⟨U, calls⟩ = some ((0, c), s)) ∧
        ∀ rest, ¬ WellFormed U rest := by
  cases h with
  | unencodable hlong h =>
    subst h
    exact .inl (connectproxy_unencodable upstream client calls (authMessage_none.mpr hlong))
  | @reply W h hreply =>
    subst h
    by_cases hlong : upstream.creds.Long
    · exact .inl (connectproxy_unencodable upstream client calls (authMessage_none.mpr hlong))
    obtain ⟨calls', hconnect⟩ := connectproxy_reply client calls (W := W) hlong
    rcases hreply.readreply upstream client calls' with
      hnone | ⟨⟨s, hs⟩, hbad⟩
    · exact .inl (hconnect.trans (by rw [hnone]; rfl))
    · refine .inr ⟨⟨_, s, hconnect.trans (by rw [hs]; rfl)⟩, ?_⟩
      rintro rest ⟨W', heq, hW'⟩
      obtain rfl : W = W' := by simpa using heq
      exact hbad rest hW'

/-- An answer that is not misread succeeds if it is well-formed, and fails with a byte if it is
not. -/
theorem connectproxy_cases (h : ¬ Misread upstream U) :
    (∃ rest calls', WellFormed U rest ∧ (socks5Connectproxy client).eval upstream.env ⟨U, calls⟩ =
      some ((0, { client with proxyfd := upstream.fd }), ⟨rest, calls'⟩)) ∨
    (∀ rest, ¬ WellFormed U rest) ∧ ∃ status s, 0 < status ∧ status < 256 ∧
      (socks5Connectproxy client).eval upstream.env ⟨U, calls⟩ =
        some ((status, { client with proxyfd := upstream.fd }), s) := by
  by_cases hmethod : [5, 2] <+: U
  case neg =>
    obtain ⟨s, hs⟩ := connectproxy_refused upstream client calls hmethod
    refine .inr ⟨?_, 4, s, by decide, by decide, hs⟩
    rintro rest ⟨W, rfl, -⟩
    exact hmethod (by simp)
  obtain ⟨V, rfl⟩ := hmethod
  have hlong : ¬ upstream.creds.Long := fun hlong => h (.unencodable hlong rfl)
  by_cases hauth : [1, 0] <+: V
  case neg =>
    obtain ⟨data, hdata⟩ := Option.ne_none_iff_exists'.mp (mt authMessage_none.mp hlong)
    obtain ⟨status, s, hs, hstatus⟩ :=
      connectproxy_unauthenticated upstream client calls hdata hauth
    refine .inr ⟨?_, status, s, by omega, by omega, hs⟩
    rintro rest ⟨W, heq, -⟩
    obtain rfl : V = [1, 0] ++ W := List.append_cancel_left heq
    exact hauth (by simp)
  obtain ⟨W, rfl⟩ := hauth
  obtain ⟨calls', hconnect⟩ := connectproxy_reply client calls (W := W) hlong
  rcases readreply_cases upstream client calls'
      fun hreply => h (.reply rfl hreply) with
    ⟨rest, calls'', hW, heval⟩ | ⟨hW, status, s, hpos, hlt, heval⟩
  · exact .inl ⟨rest, calls'', ⟨W, rfl, hW⟩, hconnect.trans (by rw [heval]; rfl)⟩
  · refine .inr ⟨?_, status, s, hpos, hlt, hconnect.trans (by rw [heval]; rfl)⟩
    rintro rest ⟨W', heq, hW'⟩
    obtain rfl : W = W' := by simpa using heq
    exact hW rest hW'

end Outcome

/-! ### The client -/

/-- A reply of success to the client, or the start of the relay. -/
def Call.TellsSuccess (clientfd : Int) (c : Call) : Prop :=
  (∃ b, c = .writen clientfd (5 :: 0 :: b)) ∨ ∃ fd fd', c = .negotiate fd fd'

theorem Call.Upstream.not_tellsSuccess {fd clientfd : Int} {c : Call} (h : c.Upstream fd) :
    ¬ c.TellsSuccess clientfd := by
  rintro (⟨b, rfl⟩ | ⟨fd, fd', rfl⟩)
  · rcases h with h | ⟨sa, h⟩ | ⟨b', h, hb'⟩ | h
    · exact h
    · cases h
    · cases h
      exact hb' (by simp)
    · exact h
  · rcases h with h | ⟨sa, h⟩ | ⟨b', h, -⟩ | h
    · exact h
    · cases h
    · cases h
    · exact h

theorem socks5Connectproxy_not_tellsSuccess (client : Socks5Cli) (clientfd : Int) :
    (socks5Connectproxy client).All fun c => ¬ c.TellsSuccess clientfd := by
  obtain ⟨rest, heq, hrest⟩ := socks5Connectproxy_all client
  rw [heq]
  refine ⟨by simp [Call.TellsSuccess], fun fd => (hrest fd).1.mono ?_⟩
  exact fun c => Call.Upstream.not_tellsSuccess

theorem socks5Writereply_not_tellsSuccess (client : Socks5Cli) {status : Int} (clientfd : Int)
    (hpos : 0 < status) (hlt : status < 256) :
    (socks5Writereply client status).All fun c => ¬ c.TellsSuccess clientfd := by
  -- the byte that is sent is the status, which is not cut off
  have hne : UInt8.ofInt status ≠ 0 := by
    intro heq
    have := congrArg UInt8.toNat heq
    simp only [UInt8.ofInt, UInt8.toNat_ofNat', UInt8.toNat_zero] at this
    omega
  refine (socks5Writereply_all client status).mono ?_
  rintro c (rfl | ⟨atyp, b, rfl⟩)
  · simp [Call.TellsSuccess]
  · simp [Call.TellsSuccess, hne]

section Client

variable {upstream : Upstream} {client c : Socks5Cli} {U rest : List UInt8} {s : Upstream.State}
  {status clientfd : Int} {calls : List Call}

/-- The client has not been told of a success. -/
def Upstream.State.Quiet (clientfd : Int) (s : Upstream.State) : Prop :=
  ∀ c ∈ s.calls, ¬ c.TellsSuccess clientfd

theorem Upstream.State.Quiet.eval {α : Type} {p : Session α} {a : α} {s' : Upstream.State}
    (h : s.Quiet clientfd) (hp : p.All fun c => ¬ c.TellsSuccess clientfd)
    (heval : p.eval upstream.env s = some (a, s')) : s'.Quiet clientfd := by
  refine hp.eval h (fun c r s s' hc hs henv c' hc' => ?_) heval
  rw [Upstream.env_calls henv, List.mem_append, List.mem_singleton] at hc'
  rcases hc' with hc' | rfl
  · exact hs c' hc'
  · exact hc

theorem writereply_eval (upstream : Upstream) (client : Socks5Cli) (status : Int)
    (s : Upstream.State) :
    ∃ status' calls',
      (socks5Writereply client status).eval upstream.env s = some (status', ⟨s.input, calls'⟩) := by
  cases h : upstream.bound <;> simp [socks5Writereply, call, writen, Upstream.env, h]

theorem serveRequest_success (hcmd : client.cmd = 1)
    (hconnect : (socks5Connectproxy client).eval upstream.env ⟨U, [.enter .connectproxy]⟩ =
      some ((0, c), ⟨rest, calls⟩)) :
    ∃ r calls', (serveRequest client).eval upstream.env ⟨U, []⟩ = some (r, ⟨rest, calls'⟩) := by
  obtain ⟨status', calls', hreply⟩ := writereply_eval upstream c 0
    ⟨rest, calls ++ [.leave .connectproxy 0]⟩
  simp [serveRequest, hcmd, noted_eq, call, Prog.eval_bind, Upstream.env, hconnect, hreply]
  by_cases h : status' = 0 <;> simp [h, Upstream.env]

theorem serveRequest_failure (hcmd : client.cmd = 1) (hpos : 0 < status) (hlt : status < 256)
    (hconnect : (socks5Connectproxy client).eval upstream.env ⟨U, [.enter .connectproxy]⟩ =
      some ((status, c), ⟨rest, calls⟩)) :
    ∃ r s, (serveRequest client).eval upstream.env ⟨U, []⟩ = some (r, s) ∧ s.Quiet clientfd := by
  have hquiet : Upstream.State.Quiet clientfd ⟨rest, calls⟩ := by
    refine Upstream.State.Quiet.eval ?_
      (socks5Connectproxy_not_tellsSuccess client clientfd) hconnect
    simp [Upstream.State.Quiet, Call.TellsSuccess]
  have hleave : Upstream.State.Quiet clientfd ⟨rest, calls ++ [.leave .connectproxy status]⟩ := by
    intro call hcall
    rcases List.mem_append.mp hcall with hcall | hcall
    · exact hquiet call hcall
    · obtain rfl := List.mem_singleton.mp hcall
      simp [Call.TellsSuccess]
  obtain ⟨status', calls', hreply⟩ := writereply_eval upstream c status
    ⟨rest, calls ++ [.leave .connectproxy status]⟩
  refine ⟨(status, c), ⟨rest, calls'⟩, ?_,
    hleave.eval (socks5Writereply_not_tellsSuccess c clientfd hpos hlt) hreply⟩
  have hne : status ≠ 0 := by omega
  simp [serveRequest, hcmd, noted_eq, call, Prog.eval_bind, Upstream.env, hconnect, hreply, hne]

end Client

/-- `socks5_connectproxy` succeeds exactly on the well-formed answers, and takes just their bytes;
and `socks5_run` tells the client of a success, or starts the relay, only behind such an answer. -/
structure HandshakeCorrect (upstream : Upstream) (client : Socks5Cli) (U : List UInt8) : Prop where
  connect : ∃ status c rest calls,
    (socks5Connectproxy client).eval upstream.env ⟨U, []⟩ = some ((status, c), ⟨rest, calls⟩) ∧
      (status = 0 ↔ ∃ rest, WellFormed U rest) ∧ (status = 0 → WellFormed U rest)
  serve : client.cmd = 1 → ∃ r s,
    (serveRequest client).eval upstream.env ⟨U, []⟩ = some (r, s) ∧
      ((∃ c ∈ s.calls, c.TellsSuccess client.clientfd) → WellFormed U s.input)

theorem handshakeCorrect (upstream : Upstream) (client : Socks5Cli) {U : List UInt8}
    (h : ¬ Misread upstream U) : HandshakeCorrect upstream client U where
  connect := by
    rcases connectproxy_cases client [] h with
      ⟨rest, calls, hU, heval⟩ | ⟨hU, status, s, hpos, -, heval⟩
    · exact ⟨0, _, rest, calls, heval, ⟨fun _ => ⟨rest, hU⟩, fun _ => rfl⟩, fun _ => hU⟩
    · have hne : status ≠ 0 := by omega
      exact ⟨status, _, s.input, s.calls, heval, by simp [hne, hU], fun h => absurd h hne⟩
  serve hcmd := by
    rcases connectproxy_cases client [.enter .connectproxy] h with
      ⟨rest, calls, hU, heval⟩ | ⟨-, status, s, hpos, hlt, heval⟩
    · obtain ⟨r, calls', hserve⟩ := serveRequest_success hcmd heval
      exact ⟨r, _, hserve, fun _ => hU⟩
    · obtain ⟨r, s', hserve, hquiet⟩ := serveRequest_failure hcmd hpos hlt heval
      refine ⟨r, s', hserve, ?_⟩
      rintro ⟨c, hc, hsuccess⟩
      exact absurd hsuccess (hquiet c hc)

/-- The handshake is correct just for the answers that are not misread. -/
theorem handshakeCorrect_iff (upstream : Upstream) (client : Socks5Cli) (U : List UInt8) :
    HandshakeCorrect upstream client U ↔ ¬ Misread upstream U := by
  refine ⟨fun hcorrect hbad => ?_, handshakeCorrect upstream client⟩
  obtain ⟨status, c, rest, calls, heval, hiff, -⟩ := hcorrect.connect
  rcases hbad.connectproxy client [] with hnone | ⟨⟨c', s, hs⟩, hU⟩
  · rw [hnone] at heval
    cases heval
  · rw [hs] at heval
    cases heval
    obtain ⟨rest, hrest⟩ := hiff.mp rfl
    exact hU rest hrest

/-- An upstream without anything special, and a request to connect. -/
def plainUpstream : Upstream := ⟨5, some ⟨[117], [112]⟩, default, some .zeroed, 0, by decide⟩

def plainClient : Socks5Cli := { Socks5Cli.start 4 with cmd := 1, request.family := .inet }

/-- A reply of version 4 with the status 0 is no success, but the client is told of one and the
relay starts. -/
theorem versionFour_misread :
    let U := [5, 2, 1, 0, 4, 0, 0, 1]
    ((socks5Connectproxy plainClient).eval plainUpstream.env ⟨U, []⟩).map (·.1.1) = some 0 ∧
      ((serveRequest plainClient).eval plainUpstream.env ⟨U, []⟩).map (·.2.calls.drop 12) =
        some [.writen 4 [5, 0, 0, 4, 0, 0, 0, 0, 0, 0], .negotiate 4 5] ∧
      ¬ HandshakeCorrect plainUpstream plainClient U := by
  refine ⟨rfl, rfl, fun hcorrect => ?_⟩
  obtain ⟨status, c, rest, calls, heval, hiff, -⟩ := hcorrect.connect
  obtain rfl : 0 = status := congrArg (fun o => (o.map (·.1.1)).getD 0) heval
  obtain ⟨rest, W, hU, rsv, atyp, X, rfl, -⟩ := hiff.mp rfl
  simp at hU

end Silksocks
