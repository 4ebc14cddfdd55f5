import Silksocks.CacheDb
import Silksocks.Lib.Pool
import Silksocks.SocksCalls

/-! Any number of sessions in `socks5_connectproxy` at once, in front of a database that does not
change.  `cacheip` is asked for the address of an upstream only, the database for address and port.
As long as no lookup in the cache finds its address under the credentials for another port, each
session sends the credentials of the database, or fails where the database has none. -/

namespace Silksocks

open Program Prog OpenAddressing

/-- The credentials in the database.  What `sqlget_proxycreds` reads fits its buffers of 256 bytes,
with the terminating NUL. -/
structure ProxyDb where
  creds : UInt32 × UInt16 → Option Creds
  fits : ∀ upstream c, creds upstream = some c → c.user.length < 256 ∧ c.passwd.length < 256

/-- The upstream proxy of a session. -/
def Socks5Cli.upstream (client : Socks5Cli) : UInt32 × UInt16 :=
  (ntohl client.srvpeer.addr, ntohs client.srvpeer.port)

/-- What the sessions share: `cacheip`, and the upstreams whose credentials were stored in it, the
latest first. -/
structure IpShared where
  cache : CacheIp
  stored : List (UInt32 × UInt16)

/-- The calls of a session; only those that look for credentials are determined. -/
inductive IpAct (db : ProxyDb) : IpShared → Socks5Cli → SessionEvent → IpShared → Prop
  | getip {s : IpShared} {client : Socks5Cli} {ip : UInt32} {r : Option Creds}
      (h : cacheGetip s.cache ip = some r) : IpAct db s client ⟨.cacheGetip ip, r⟩ s
  | putip {s : IpShared} {client : Socks5Cli} {ip : UInt32} {creds : Creds} {alloc : Nat → Bool}
      {depth : Nat} {c : CacheIp} (h : cachePutip alloc depth s.cache ip creds = some c) :
      IpAct db s client ⟨.cachePutip ip creds, ()⟩
        ⟨c, if putDropped alloc s.cache then s.stored else client.upstream :: s.stored⟩
  | sqlget {s : IpShared} {client : Socks5Cli} {ip : UInt32} {port : UInt16} :
      IpAct db s client ⟨.sqlgetProxycreds ip port 1, db.creds (ip, port)⟩ s
  | other {s : IpShared} {client : Socks5Cli} {e : SessionEvent} (h : ¬ e.call.LooksUpProxy) :
      IpAct db s client e s

def connects (db : ProxyDb) : Rules IpShared Socks5Cli Call.Result (Int × Socks5Cli) where
  body := socks5Connectproxy
  spawn s _ s' := s' = s
  act := IpAct db

/-- No lookup finds the address of its upstream under the credentials for another port. -/
def IpClear (db : ProxyDb) (s : IpShared) (client : Socks5Cli) (e : SessionEvent) : Prop :=
  ∀ ip, e.call = .cacheGetip ip → NoClash Prod.fst db.creds s.cache s.stored client.upstream

/-! ### The messages to an upstream -/

/-- The descriptor that a call writes to, and its message. -/
def Call.message : Call → Option (Int × List UInt8)
  | writen fd data => some (fd, data)
  | _ => none

/-- What a connection has sent, and where. -/
def sent (t : List SessionEvent) : List (Int × List UInt8) := t.filterMap fun e => e.call.message

@[simp] theorem sent_append (t t' : List SessionEvent) : sent (t ++ t') = sent t ++ sent t' :=
  List.filterMap_append

@[simp] theorem sent_nil : sent [] = [] := rfl

@[simp] theorem sent_cons (e : SessionEvent) (t : List SessionEvent) :
    sent (e :: t) = e.call.message.toList ++ sent t := by
  cases h : e.call.message <;> simp [sent, h]

theorem Call.Reads.unsent {fd : Int} {c : Call} (h : c.Reads fd) :
    ∀ m, c.message = some m → m.1 = fd := by
  cases c <;> simp_all [Reads, message]

/-- The authentication message with a user and password that are not cut off. -/
def authData (creds : Creds) : List UInt8 :=
  [0x01, UInt8.ofNat creds.user.length] ++ creds.user ++ [UInt8.ofNat creds.passwd.length] ++
    creds.passwd

theorem authMessage_eq {creds : Creds} (huser : creds.user.length < 256)
    (hpasswd : creds.passwd.length < 256) {data : List UInt8} (h : authMessage creds = some data) :
    data = authData creds := by
  have hu : (UInt8.ofNat creds.user.length).toNat = creds.user.length := by simpa using huser
  have hp : (UInt8.ofNat creds.passwd.length).toNat = creds.passwd.length := by simpa using hpasswd
  simp only [authMessage] at h
  split at h
  · cases h
  · cases h
    rw [hu, hp, List.take_length, List.take_length, authData]

/-- All messages go to the socket that is connected to the upstream, and what is sent after the
greeting is what the database says. -/
structure AuthSafe (db : ProxyDb) (client : Socks5Cli) (t : List SessionEvent) : Prop where
  upstream : ∀ fd data, (fd, data) ∈ sent t → ConnectedUpstream client fd t
  auth : ∀ fd data, (sent t)[1]? = some (fd, data) →
    ∃ creds, db.creds client.upstream = some creds ∧ data = authData creds

/-- What holds when a connection ends: it fails without credentials, and has sent those that it
asked for to its upstream if they can be encoded. -/
structure AuthDone (db : ProxyDb) (client : Socks5Cli) (t : List SessionEvent) (status : Int) :
    Prop where
  missing : db.creds client.upstream = none → status ≠ 0
  found : ∀ creds, db.creds client.upstream = some creds → authMessage creds ≠ none →
    (∃ ip r, ⟨.cacheGetip ip, r⟩ ∈ t) →
      ∃ fd, ConnectedUpstream client fd t ∧ (sent t)[1]? = some (fd, authData creds)

/-! ### One connection -/

/-- What a connection relies on: its cache and its database say what the database says. -/
def IpAnswer (db : ProxyDb) (client : Socks5Cli) : SessionEvent → Prop
  | ⟨.cacheGetip _, r⟩ => ∀ creds, r = some creds → db.creds client.upstream = some creds
  | ⟨.sqlgetProxycreds _ _ _, r⟩ => r = db.creds client.upstream
  | _ => True

/-- What a connection guarantees: it asks for its own upstream, and caches what the database
says. -/
def IpCall (db : ProxyDb) (client : Socks5Cli) : Call → Prop
  | .cacheGetip ip => ip = client.upstream.1
  | .sqlgetProxycreds ip port status => (ip, port) = client.upstream ∧ status = 1
  | .cachePutip ip creds => ip = client.upstream.1 ∧ db.creds client.upstream = some creds
  | _ => True

abbrev ipContract (db : ProxyDb) (client : Socks5Cli) :
    Contract (List SessionEvent) Call.Result :=
  .history (fun t c => IpCall db client c ∧ AuthSafe db client t) (IpAnswer db client)

section Connection

variable {α : Type} {db : ProxyDb} {client : Socks5Cli} {t : List SessionEvent}

theorem ipCall_of_other {c : Call} (h : ¬ c.LooksUpProxy) : IpCall db client c := by
  cases c <;> first | trivial | exact absurd trivial h

theorem authSafe_of_unsent (h : sent t = []) : AuthSafe db client t :=
  ⟨by simp [h], by simp [h]⟩

/-- Only the greeting has been sent, to the socket `fd` that is connected to the upstream. -/
structure OnlyGreeted (client : Socks5Cli) (fd : Int) (t : List SessionEvent) : Prop where
  connected : ConnectedUpstream client fd t
  sent : sent t = [(fd, [5, 1, 2])]

theorem OnlyGreeted.snoc {fd : Int} (h : OnlyGreeted client fd t) {e : SessionEvent}
    (he : e.call.message = none) : OnlyGreeted client fd (t ++ [e]) :=
  ⟨h.connected.append _, by simp [h.sent, he]⟩

theorem OnlyGreeted.safe {fd : Int} (h : OnlyGreeted client fd t) : AuthSafe db client t := by
  refine ⟨fun fd' data hmem => ?_, by simp [h.sent]⟩
  rw [h.sent, List.mem_singleton, Prod.mk.injEq] at hmem
  rw [hmem.1]
  exact h.connected

/-- The messages went to the socket `fd` that is connected to the upstream, and the one behind the
greeting is the authentication message. -/
structure SentAuth (client : Socks5Cli) (fd : Int) (creds : Creds) (t : List SessionEvent) :
    Prop where
  connected : ConnectedUpstream client fd t
  upstream : ∀ m ∈ sent t, m.1 = fd
  auth : (sent t)[1]? = some (fd, authData creds)

namespace SentAuth

variable {fd : Int} {creds : Creds}

theorem of_greeted (h : OnlyGreeted client fd t) {written : Bool} :
    SentAuth client fd creds (t ++ [⟨.writen fd (authData creds), written⟩]) :=
  ⟨h.connected.append _, by simp [h.sent, Call.message], by simp [h.sent, Call.message]⟩

theorem snoc (h : SentAuth client fd creds t) {e : SessionEvent}
    (he : ∀ m, e.call.message = some m → m.1 = fd) : SentAuth client fd creds (t ++ [e]) := by
  refine ⟨h.connected.append _, fun m hm => ?_, ?_⟩
  · rw [sent_append, List.mem_append, sent_cons, sent_nil, List.append_nil, Option.mem_toList] at hm
    exact hm.elim (h.upstream m) (he m)
  · obtain ⟨hlt, -⟩ := List.getElem?_eq_some_iff.mp h.auth
    rw [sent_append, List.getElem?_append_left hlt, h.auth]

theorem safe (h : SentAuth client fd creds t) (hdb : db.creds client.upstream = some creds) :
    AuthSafe db client t := by
  refine ⟨fun fd' data hmem => ?_, fun fd' data hdata => ⟨creds, hdb, ?_⟩⟩
  · obtain rfl : fd' = fd := h.upstream _ hmem
    exact h.connected
  · rw [h.auth] at hdata
    cases hdata
    rfl

theorem done (h : SentAuth client fd creds t) (hdb : db.creds client.upstream = some creds)
    (status : Int) : AuthDone db client t status := by
  refine ⟨by simp [hdb], ?_⟩
  rintro creds' hcreds - -
  obtain rfl : creds = creds' := Option.some.inj (hdb.symm.trans hcreds)
  exact ⟨fd, h.connected, h.auth⟩

end SentAuth

/-- A connection that fails before it asks for credentials. -/
theorem authDone_of_early {status : Int} (hsafe : AuthSafe db client t)
    (hget : ∀ ip r, ⟨.cacheGetip ip, r⟩ ∉ t) (hstatus : status ≠ 0) :
    AuthSafe db client t ∧ AuthDone db client t status := by
  refine ⟨hsafe, fun _ => hstatus, ?_⟩
  rintro creds - - ⟨ip, r, hmem⟩
  exact absurd hmem (hget ip r)

theorem proxyCreds_wp {Q : List SessionEvent → Option Creds → Prop} {fd : Int}
    (h : OnlyGreeted client fd t)
    (hQ : ∀ t', OnlyGreeted client fd t' → Q t' (db.creds client.upstream)) :
    (ipContract db client).wp Q t (proxyCreds client.upstream.1 client.upstream.2) := by
  refine ⟨⟨rfl, h.safe⟩, fun cached hcached => ?_⟩
  have hget : OnlyGreeted client fd (t ++ [⟨.cacheGetip client.upstream.1, cached⟩]) := h.snoc rfl
  cases cached with
  | some creds =>
    rw [hcached creds rfl] at hQ
    exact hQ _ hget
  | none =>
    refine ⟨⟨⟨rfl, rfl⟩, hget.safe⟩, fun stored hstored => ?_⟩
    have hsql : OnlyGreeted client fd (t ++ [⟨.cacheGetip client.upstream.1, none⟩] ++
        [⟨.sqlgetProxycreds client.upstream.1 client.upstream.2 1, stored⟩]) := hget.snoc rfl
    cases stored with
    | none =>
      rw [← hstored] at hQ
      exact hQ _ hsql
    | some creds =>
      rw [← hstored] at hQ
      exact ⟨⟨⟨rfl, hstored.symm⟩, hsql.safe⟩, fun _ _ => hQ _ (hsql.snoc rfl)⟩

/-- After the authentication message a connection may do what it likes, but for lookups and for
messages to another descriptor. -/
theorem sentAuth_wp {Q : List SessionEvent → α → Prop} {fd : Int} {creds : Creds} {p : Session α}
    (hdb : db.creds client.upstream = some creds) (h : SentAuth client fd creds t)
    (hp : p.All fun c => ¬ c.LooksUpProxy ∧ ∀ m, c.message = some m → m.1 = fd)
    (hQ : ∀ t' a, SentAuth client fd creds t' → Q t' a) :
    (ipContract db client).wp Q t p :=
  Contract.wp_of_all (I := SentAuth client fd creds) hp h
    (fun _ _ ht hc => ⟨ipCall_of_other hc.1, ht.safe hdb⟩) (fun _ _ ht hc => ht.snoc hc.2) hQ

theorem socks5Connectproxy_wp (db : ProxyDb) (client : Socks5Cli) :
    (ipContract db client).wp (fun t r => AuthSafe db client t ∧ AuthDone db client t r.1) []
      (socks5Connectproxy client) := by
  have hfails : (4 : Int) ≠ 0 := by decide
  simp only [socks5Connectproxy, call, writen, readInto_of_le (show 2 ≤ 512 by decide), call_bind,
    done_bind, pure_eq]
  refine ⟨⟨trivial, authSafe_of_unsent rfl⟩, fun (fd : Int) _ => ?_⟩
  dsimp only
  split
  · exact authDone_of_early (authSafe_of_unsent rfl) (by simp) (show (1 : Int) ≠ 0 by decide)
  refine ⟨⟨trivial, authSafe_of_unsent rfl⟩, fun connected _ => ?_⟩
  cases connected with
  | false => exact authDone_of_early (authSafe_of_unsent rfl) (by simp) hfails
  | true =>
  refine ⟨⟨trivial, authSafe_of_unsent rfl⟩, fun written _ => ?_⟩
  have hgreeted : OnlyGreeted client fd [⟨.socket, fd⟩, ⟨.connectNonb fd client.srvpeer, true⟩,
      ⟨.writen fd [5, 1, 2], written⟩] := ⟨⟨_, rfl⟩, rfl⟩
  cases written with
  | false => exact authDone_of_early hgreeted.safe (by simp) hfails
  | true =>
  refine ⟨⟨trivial, hgreeted.safe⟩, fun buf _ => ?_⟩
  have hmethod := hgreeted.snoc (e := ⟨.readn fd 2, buf⟩) rfl
  cases buf with
  | none => exact authDone_of_early hmethod.safe (by simp) hfails
  | some buf =>
  dsimp only
  split
  · exact authDone_of_early hmethod.safe (by simp) hfails
  rw [Contract.wp_bind]
  refine proxyCreds_wp hmethod fun t ht => ?_
  cases hdb : db.creds client.upstream with
  | none =>
    exact ⟨ht.safe, fun _ => hfails, fun creds hcreds => by simp [hdb] at hcreds⟩
  | some creds =>
  dsimp only
  split
  · rename_i data hdata
    obtain ⟨huser, hpasswd⟩ := db.fits _ _ hdb
    obtain rfl := authMessage_eq huser hpasswd hdata
    refine ⟨⟨trivial, ht.safe⟩, fun written _ => ?_⟩
    refine sentAuth_wp hdb (.of_greeted ht) ?_ fun t' r ht' => ⟨ht'.safe hdb, ht'.done hdb r.1⟩
    refine all_ite.mpr ⟨fun _ => all_done, fun _ => ⟨⟨id, by simp [Call.message]⟩, fun reply => ?_⟩⟩
    cases reply with
    | none => trivial
    | some reply =>
    refine all_ite.mpr ⟨fun _ => all_done, fun _ => ?_⟩
    refine ((socks5Writerequest_all _).mono ?_).bind fun status => ?_
    · rintro _ ⟨b, rfl⟩
      exact ⟨id, by simp [Call.message]⟩
    · refine all_ite.mpr ⟨fun _ => all_done, fun _ => ?_⟩
      exact ((socks5Readreply_all _).mono fun _ h => ⟨h.not_looksUpProxy, h.unsent⟩).bind
        fun _ => all_done
  · exact ⟨⟨trivial, ht.safe⟩, fun r => r.elim⟩

end Connection

/-! ### All connections -/

section Connections

variable {db : ProxyDb} {c : CacheIp} {p : Pool IpShared Socks5Cli Call.Result (Int × Socks5Cli)}

theorem connects_inv {alloc : Nat → Bool} {n : Nat} (hc : cacheInitip alloc n = some c)
    (hp : (connects db).Reach (IpClear db) ⟨c, []⟩ p) :
    CacheAgrees Prod.fst db.creds ipHome p.shared.cache p.shared.stored ∧
      ∀ th ∈ p.threads, ∀ e ∈ th.trace, IpAnswer db th.arg e := by
  refine hp.calls (I := fun s => CacheAgrees Prod.fst db.creds ipHome s.cache s.stored)
    (E := fun _ client e => IpAnswer db client e) (cacheInit_agrees hc) ?_ ?_
  · rintro s a _ rfl hI
    exact ⟨hI, fun _ _ h => h⟩
  · intro s client t call next r s' hrun hclear hact hI ht
    have hcall := (Contract.history_runs (socks5Connectproxy_wp db client) hrun ht).1.1
    refine ⟨?_, ?_, fun _ _ h => h⟩
    · cases hact with
      | getip h => exact hI
      | sqlget => exact hI
      | other h => exact hI
      | putip h =>
        obtain ⟨rfl, hdb⟩ := hcall
        exact hI.put hdb (cachePutip_of_some hI.inv h)
    · cases hact with
      | getip h =>
        rintro creds rfl
        have hip : _ = client.upstream.1 := hcall
        exact hI.get (hclear _ rfl) (hip ▸ h)
      | sqlget => exact congrArg db.creds hcall.1
      | putip h => trivial
      | other h =>
        cases call <;> first | trivial | exact absurd trivial h

/-- The call that a connection is about to make has a result, if it is one that C defines. -/
theorem connects_progress
    (h : CacheAgrees Prod.fst db.creds ipHome p.shared.cache p.shared.stored) (client : Socks5Cli)
    {call : Call} (hcall : IpCall db client call) (hfault : call ≠ .fault) :
    ∃ r s, IpAct db p.shared client ⟨call, r⟩ s := by
  by_cases hlook : call.LooksUpProxy
  · cases call with
    | cacheGetip ip =>
      obtain ⟨r, hr⟩ := h.inv.get_total ip
      exact ⟨r, _, .getip hr⟩
    | sqlgetProxycreds ip port status =>
      obtain ⟨-, rfl⟩ := hcall
      exact ⟨_, _, .sqlget⟩
    | cachePutip ip creds =>
      rcases cachePutip_spec h.inv (fun _ => true) 0 ip creds with ⟨-, hput⟩ | ⟨c', -, hput, -⟩
      · exact ⟨(), _, .putip hput⟩
      · exact ⟨(), _, .putip hput⟩
    | _ => exact hlook.elim
  · obtain ⟨r⟩ := Call.result_nonempty hfault
    exact ⟨r, _, .other hlook⟩

end Connections

/-- A session whose upstream proxy is at 10.0.0.1. -/
def upstreamClient (port : List UInt8) : Socks5Cli :=
  { Socks5Cli.start 4 with srvpeer := ⟨.inet, [10, 0, 0, 1], port⟩ }

/-- The only credentials are "u" and "p" for 10.0.0.1:1080. -/
def oneProxyDb : ProxyDb where
  creds upstream := if upstream = (0x0A000001, 1080) then some ⟨[117], [112]⟩ else none
  fits upstream c h := by
    split at h
    · cases h
      decide
    · cases h

end Silksocks
