import Silksocks.HashtblTtl
import Silksocks.Lib.Pool
import Silksocks.SocksCalls

/-! Any number of sessions in `socks5_readrequest` at once, which look up names in `dns_table` and
in the resolver, with a clock that never goes back.  As long as no lookup in the table finds the
hash of its name under an unexpired entry for another name, a request for a name gets an address
that the resolver returned for this name, now or not longer than `DNS_TTL` ago. -/

namespace Silksocks

open Program Prog Chains

/-- An answer of the resolver that a session stored in the table, after it had read the clock. -/
structure Resolution where
  name : List UInt8
  addr : List UInt8
  time : Int

def Resolution.entry (r : Resolution) : HashEntry := ⟨hashStr r.name, r.time + dnsTtl, r.addr⟩

/-- What the sessions share: `dns_table`, the answers that were stored in it, the latest first, and
the clock that was read last. -/
structure DnsShared where
  table : HashTable
  stored : List Resolution
  clock : Int

/-- The calls that read the clock. -/
def Call.ReadsClock : Call → Prop
  | hashtblGet _ | hashtblPut _ _ _ | time => True
  | _ => False

/-- The calls of a session.  Those that read the clock read no earlier time than the last one; the
resolver and the client are not determined. -/
inductive DnsAct : DnsShared → Socks5Cli → SessionEvent → DnsShared → Prop
  | get {s : DnsShared} {client : Socks5Cli} {key : List UInt8} {now : Int}
      {r : Option (List UInt8)} {t : HashTable} (hNow : s.clock ≤ now)
      (h : hashtblGet s.table key now = some (r, t)) :
      DnsAct s client ⟨.hashtblGet key, (now, r)⟩ ⟨t, s.stored, now⟩
  | put {s : DnsShared} {client : Socks5Cli} {key val : List UInt8} {expires checkNow now r : Int}
      {t : HashTable} (hCheck : s.clock ≤ checkNow) (hNow : checkNow ≤ now)
      (h : hashtblPut s.table key val expires checkNow now = some (r, t)) :
      DnsAct s client ⟨.hashtblPut key val expires, r⟩
        ⟨t, if inserted s.table t key then ⟨key, val, expires - dnsTtl⟩ :: s.stored else s.stored,
          now⟩
  | time {s : DnsShared} {client : Socks5Cli} {now : Int} (hNow : s.clock ≤ now) :
      DnsAct s client ⟨.time, now⟩ ⟨s.table, s.stored, now⟩
  | other {s : DnsShared} {client : Socks5Cli} {e : SessionEvent} (h : ¬ e.call.ReadsClock) :
      DnsAct s client e s

def requests : Rules DnsShared Socks5Cli Call.Result (Int × Socks5Cli) where
  body := socks5Readrequest
  spawn s _ s' := s' = s
  act := DnsAct

/-- The answer that was the latest to be stored under a hash. -/
def latestResolution (stored : List Resolution) (hash : UInt64) : Option Resolution :=
  stored.find? fun r => hashStr r.name = hash

/-- No lookup finds the hash of its name under an answer for another name which has not expired when
the lookup reads the clock. -/
def DnsClear (s : DnsShared) (_ : Socks5Cli) : SessionEvent → Prop
  | ⟨.hashtblGet name, (now, _)⟩ => ∀ r, latestResolution s.stored (hashStr name) = some r →
    now ≤ r.time + dnsTtl → r.name = name
  | _ => True

theorem latest_entry (stored : List Resolution) (hash : UInt64) :
    latest (stored.map Resolution.entry) hash =
      (latestResolution stored hash).map Resolution.entry := by
  rw [latest, List.find?_map]
  rfl

/-! ### One request -/

/-- A session stores what the resolver returned to it, with a time that it read. -/
def DnsCall (t : List SessionEvent) (c : Call) : Prop :=
  ∀ name val expires, c = .hashtblPut name val expires →
    ∃ addr : Bytes 4, addr.val = val ∧ ⟨.hostServ name, some addr⟩ ∈ t ∧
      ⟨.time, expires - dnsTtl⟩ ∈ t

/-- The contract of a session, which relies on nothing. -/
abbrev dnsContract : Contract (List SessionEvent) Call.Result := .history DnsCall fun _ => True

theorem dnsCall_readn {t : List SessionEvent} {fd : Int} {n : Nat} : DnsCall t (.readn fd n) := by
  simp [DnsCall]

theorem dns_of_reads {α : Type} (fd : Int) {p : Session α} {s : List SessionEvent}
    (hp : p.All (Call.Reads fd)) : dnsContract.wp (fun _ _ => True) s p := by
  refine Contract.wp_of_all (I := fun _ => True) hp trivial ?_ (fun _ _ _ _ => trivial)
    fun _ _ _ => trivial
  rintro s c - hc name val expires rfl
  exact hc.elim

theorem resolve_wp (request : Sockaddr) (host : List UInt8) (s : List SessionEvent) :
    dnsContract.wp (fun _ _ => True) s (resolve request host) := by
  refine ⟨nofun, ?_⟩
  rintro ⟨now, cached⟩ -
  cases cached with
  | some addr => trivial
  | none =>
  refine ⟨nofun, fun addr _ => ?_⟩
  cases addr with
  | none => trivial
  | some addr =>
  refine ⟨nofun, fun (now : Int) _ => ⟨?_, fun _ _ => trivial⟩⟩
  rintro name val expires ⟨⟩
  refine ⟨addr, rfl, ?_, ?_⟩
  · simp
  · simp

theorem socks5Readrequest_wp (client : Socks5Cli) :
    dnsContract.wp (fun _ _ => True) [] (socks5Readrequest client) := by
  simp only [socks5Readrequest, readByte, readInto_of_le (show 2 ≤ 256 by decide),
    readInto_of_le (show 4 ≤ 256 by decide), readInto_of_le (show 16 ≤ 256 by decide), readInto_byte,
    call_bind, done_bind, pure_eq]
  refine ⟨dnsCall_readn, fun ver _ => ?_⟩
  cases ver with
  | none => trivial
  | some ver =>
  dsimp only [Option.map_some]
  split
  · trivial
  refine ⟨dnsCall_readn, fun cmd _ => ?_⟩
  cases cmd with
  | none => trivial
  | some cmd =>
  dsimp only [Option.map_some]
  split
  · trivial
  refine ⟨dnsCall_readn, fun rsv _ => ?_⟩
  cases rsv with
  | none => trivial
  | some rsv =>
  refine ⟨dnsCall_readn, fun atyp _ => ?_⟩
  cases atyp with
  | none => trivial
  | some atyp =>
  dsimp only [Option.map_some]
  split
  · exact dns_of_reads client.clientfd (by simp [Option.forall])
  · refine ⟨dnsCall_readn, fun len _ => ?_⟩
    cases len with
    | none => trivial
    | some len =>
    refine ⟨dnsCall_readn, fun name _ => ?_⟩
    cases name with
    | none => trivial
    | some name =>
    refine Contract.wp_bind.mpr (Contract.wp_mono (resolve_wp _ _ _) fun t request _ => ?_)
    cases request with
    | none => trivial
    | some request => exact dns_of_reads client.clientfd (by simp [Option.forall])
  · exact dns_of_reads client.clientfd (by simp [Option.forall])
  · trivial

/-- The bytes of a request up to the name. -/
def nameRequest (fd : Int) (cmd rsv len : UInt8) (name : Bytes len.toNat) : List SessionEvent :=
  [byteEvent fd 5, byteEvent fd cmd, byteEvent fd rsv, byteEvent fd 3, byteEvent fd len,
    ⟨.readn fd len.toNat, some name⟩]

/-- The calls that find the address of a name. -/
inductive Lookup (name : List UInt8) : List SessionEvent → List UInt8 → Prop
  | cached {now : Int} {addr : List UInt8} :
      Lookup name [⟨.hashtblGet name, (now, some addr)⟩] addr
  | resolved {now time r : Int} {addr : Bytes 4} :
      Lookup name [⟨.hashtblGet name, (now, none)⟩, ⟨.hostServ name, some addr⟩, ⟨.time, time⟩,
        ⟨.hashtblPut name addr.val (time + dnsTtl), r⟩] addr.val

theorem resolve_runs {request found : Sockaddr} {host : List UInt8} {t : List SessionEvent}
    (h : Runs (resolve request host) t (.done (some found))) :
    Lookup host t found.addr ∧ found.family = .inet := by
  cases h with
  | @cons _ _ r _ _ h =>
  obtain ⟨now, cached⟩ := r
  cases cached with
  | some addr =>
    obtain ⟨rfl, hfound⟩ := runs_done.mp h
    cases hfound
    exact ⟨.cached, rfl⟩
  | none =>
  cases h with
  | @cons _ _ r _ _ h =>
  cases r with
  | none =>
    obtain ⟨-, hfound⟩ := runs_done.mp h
    cases hfound
  | some addr =>
  cases h with
  | cons h =>
  cases h with
  | cons h =>
  obtain ⟨rfl, hfound⟩ := runs_done.mp h
  cases hfound
  exact ⟨.resolved, rfl⟩

/-- A request for a name that succeeds: the address comes from a lookup of the name, and the port is
the two bytes behind the name. -/
theorem nameRequest_runs {client client' : Socks5Cli} {cmd rsv len : UInt8}
    {name : Bytes len.toNat} {t : List SessionEvent}
    (h : Runs (socks5Readrequest client) (nameRequest client.clientfd cmd rsv len name ++ t)
      (.done (0, client'))) :
    ∃ lookups addr port, t = lookups ++ [⟨.readn client.clientfd 2, some port⟩] ∧
      Lookup (cstr name.val) lookups addr ∧ client'.request = ⟨.inet, addr, port.val⟩ := by
  simp only [socks5Readrequest, readByte, readInto_of_le (show 2 ≤ 256 by decide),
    readInto_of_le (show 4 ≤ 256 by decide), readInto_of_le (show 16 ≤ 256 by decide), readInto_byte,
    call_bind, done_bind, pure_eq] at h
  cases h with
  | cons h =>
  cases h with
  | cons h =>
  dsimp only [Option.map_some, Bytes.byte_ofByte] at h
  split at h
  · exact absurd (runs_done.mp h).1 (by simp)
  cases h with
  | cons h =>
  cases h with
  | cons h =>
  cases h with
  | cons h =>
  cases h with
  | cons h =>
  obtain ⟨found, lookups, rest, ht, hlookup, h⟩ := runs_bind_done.mp h
  cases found with
  | none => cases (runs_done.mp h).2
  | some request =>
  obtain ⟨hfound, hfamily⟩ := resolve_runs hlookup
  cases h with
  | @cons _ _ r _ _ h =>
  cases r with
  | none => cases (runs_done.mp h).2
  | some port =>
  obtain ⟨rfl, hdone⟩ := runs_done.mp h
  cases hdone
  exact ⟨lookups, request.addr, port, ht, hfound, by rw [← hfamily]⟩

/-! ### All requests -/

/-- What makes the calls of a request true: a hit of the table is an answer for the same name that
was stored for at most `DNS_TTL`, and the clock does not go back. -/
def DnsAnswer (s : DnsShared) (_ : Socks5Cli) : SessionEvent → Prop
  | ⟨.hashtblGet name, (now, some addr)⟩ =>
    ∃ time, ⟨name, addr, time⟩ ∈ s.stored ∧ time ≤ now ∧ now ≤ time + dnsTtl
  | ⟨.time, now⟩ => now ≤ s.clock
  | _ => True

structure DnsInv (s : DnsShared) : Prop where
  table : ∃ B F, HashtblInv s.table (s.stored.map Resolution.entry) s.clock B F
  time : ∀ r ∈ s.stored, r.time ≤ s.clock

theorem DnsAnswer.mono {s s' : DnsShared} (hstored : s.stored ⊆ s'.stored)
    (hclock : s.clock ≤ s'.clock) {client : Socks5Cli} {e : SessionEvent}
    (h : DnsAnswer s client e) : DnsAnswer s' client e := by
  unfold DnsAnswer at h ⊢
  split
  · obtain ⟨time, hmem, hle⟩ := h
    exact ⟨time, hstored hmem, hle⟩
  · exact Int.le_trans h hclock
  · trivial

namespace DnsInv

variable {s : DnsShared} {t : HashTable} {key : List UInt8} {now : Int}

theorem later (h : DnsInv s) (hNow : s.clock ≤ now) : DnsInv ⟨s.table, s.stored, now⟩ := by
  obtain ⟨B, F, htable⟩ := h.table
  exact ⟨⟨B, F, htable.later hNow⟩, fun r hr => Int.le_trans (h.time r hr) hNow⟩

theorem get (h : DnsInv s) (hNow : s.clock ≤ now) {r : Option (List UInt8)}
    (hget : hashtblGet s.table key now = some (r, t))
    (hclear : ∀ r, latestResolution s.stored (hashStr key) = some r →
      now ≤ r.time + dnsTtl → r.name = key) (client : Socks5Cli) :
    DnsInv ⟨t, s.stored, now⟩ ∧
      DnsAnswer ⟨t, s.stored, now⟩ client ⟨.hashtblGet key, (now, r)⟩ := by
  obtain ⟨B, F, htable⟩ := h.table
  obtain ⟨r', t', B', F', hrun, htable', hr⟩ := htable.get key hNow
  cases hget.symm.trans hrun
  refine ⟨⟨⟨B', F', htable'⟩, fun r hr => Int.le_trans (h.time r hr) hNow⟩, ?_⟩
  cases r with
  | none => trivial
  | some addr =>
    obtain ⟨e, hlatest, hvalue, hlive⟩ := (hr addr).mp rfl
    rw [latest_entry, Option.map_eq_some_iff] at hlatest
    obtain ⟨found, hfound, rfl⟩ := hlatest
    have hmem : found ∈ s.stored := List.mem_of_find?_eq_some hfound
    have hlive : now ≤ found.time + dnsTtl := hlive
    have hname : found.name = key := hclear found hfound hlive
    refine ⟨found.time, ?_, Int.le_trans (h.time found hmem) hNow, hlive⟩
    rwa [← hname, ← hvalue]

theorem put (h : DnsInv s) {val : List UInt8} (hval : val.length = 4) {expires checkNow r : Int}
    (hexpires : expires - dnsTtl ≤ s.clock) (hCheck : s.clock ≤ checkNow) (hNow : checkNow ≤ now)
    (hput : hashtblPut s.table key val expires checkNow now = some (r, t)) :
    DnsInv ⟨t, if inserted s.table t key then ⟨key, val, expires - dnsTtl⟩ :: s.stored
      else s.stored, now⟩ := by
  obtain ⟨B, F, htable⟩ := h.table
  obtain ⟨r', t', B', F', hrun, htable', -⟩ := htable.put key val expires hCheck hNow
  cases hput.symm.trans hrun
  have hclock : s.clock ≤ now := Int.le_trans hCheck hNow
  have hentry : Resolution.entry ⟨key, val, expires - dnsTtl⟩ =
      ⟨hashStr key, expires, val.take 4⟩ := by
    rw [Resolution.entry, List.take_of_length_le (by omega), Int.sub_add_cancel]
  cases hi : inserted s.table t key with
  | true =>
    rw [hi, if_pos rfl] at htable'
    refine ⟨⟨B', F', by simpa [hentry] using htable'⟩, fun r hr => ?_⟩
    rcases List.mem_cons.mp hr with rfl | hr
    · exact Int.le_trans hexpires hclock
    · exact Int.le_trans (h.time r hr) hclock
  | false =>
    rw [hi, if_neg (by decide)] at htable'
    exact ⟨⟨B', F', htable'⟩, fun r hr => Int.le_trans (h.time r hr) hclock⟩

end DnsInv

theorem requests_inv {alloc : Bool} {size : Nat} {clock : Int} {t : HashTable}
    {p : Pool DnsShared Socks5Cli Call.Result (Int × Socks5Cli)}
    (ht : hashtblInit alloc size = some t)
    (hp : requests.Reach DnsClear ⟨t, [], clock⟩ p) :
    DnsInv p.shared ∧ ∀ th ∈ p.threads, ∀ e ∈ th.trace, DnsAnswer p.shared th.arg e := by
  refine hp.calls (I := DnsInv) (E := DnsAnswer) ⟨⟨_, _, .init ht clock⟩, nofun⟩ ?_ ?_
  · rintro s a _ rfl hI
    exact ⟨hI, fun _ _ h => h⟩
  · intro s client t call next r s' hrun hclear hact hI ht
    cases hact with
    | get hNow h =>
      obtain ⟨hinv, hanswer⟩ := hI.get hNow h hclear client
      refine ⟨hinv, hanswer, fun _ _ => .mono ?_ hNow⟩
      exact List.Subset.refl _
    | put hCheck hNow h =>
      have hdemand := (Contract.history_runs (socks5Readrequest_wp client) hrun
        fun _ _ => trivial).1
      obtain ⟨addr, rfl, -, htime⟩ := hdemand _ _ _ rfl
      refine ⟨hI.put addr.2 (ht _ htime) hCheck hNow h, trivial, fun _ _ => .mono ?_ ?_⟩
      · split
        · exact List.subset_cons_self _ _
        · exact List.Subset.refl _
      · exact Int.le_trans hCheck hNow
    | time hNow =>
      refine ⟨hI.later hNow, Int.le_refl _, fun _ _ => .mono ?_ hNow⟩
      exact List.Subset.refl _
    | other h =>
      refine ⟨hI, ?_, fun _ _ h => h⟩
      cases call <;> first | trivial | exact absurd trivial h

/-- Every stored answer was returned to some session, which then read the clock. -/
theorem stored_resolved {init : DnsShared} (hinit : init.stored = [])
    {p : Pool DnsShared Socks5Cli Call.Result (Int × Socks5Cli)}
    (hp : requests.Reach DnsClear init p) :
    ∀ r ∈ p.shared.stored, ∃ th ∈ p.threads, ∃ addr : Bytes 4, addr.val = r.addr ∧
      ⟨.hostServ r.name, some addr⟩ ∈ th.trace ∧ ⟨.time, r.time⟩ ∈ th.trace := by
  refine hp.logged (L := DnsShared.stored) (W := fun r t => ∃ addr : Bytes 4, addr.val = r.addr ∧
    ⟨.hostServ r.name, some addr⟩ ∈ t ∧ ⟨.time, r.time⟩ ∈ t) hinit ?_ ?_ ?_
  · rintro r t e ⟨addr, haddr, hhost, htime⟩
    exact ⟨addr, haddr, List.mem_append_left _ hhost, List.mem_append_left _ htime⟩
  · rintro s a _ rfl r hr
    exact hr
  · intro s client t c next r s' hrun hact b hb
    cases hact with
    | get hNow h => exact .inl hb
    | time hNow => exact .inl hb
    | other h => exact .inl hb
    | put hCheck hNow h =>
      have hdemand := (Contract.history_runs (socks5Readrequest_wp client) hrun
        fun _ _ => trivial).1
      obtain ⟨addr, rfl, hhost, htime⟩ := hdemand _ _ _ rfl
      dsimp only at hb
      split at hb
      · rcases List.mem_cons.mp hb with rfl | hb
        · exact .inr ⟨addr, rfl, hhost, htime⟩
        · exact .inl hb
      · exact .inl hb

/-- The resolver returned an address for a name to this session, or to one that read the clock then,
at most `DNS_TTL` before this session found the address in the table. -/
def ResolvedFor (p : Pool DnsShared Socks5Cli Call.Result (Int × Socks5Cli))
    (t : List SessionEvent) (name addr : List UInt8) : Prop :=
  (∃ a : Bytes 4, a.val = addr ∧ ⟨.hostServ name, some a⟩ ∈ t) ∨
    ∃ now time, ⟨.hashtblGet name, (now, some addr)⟩ ∈ t ∧ time ≤ now ∧ now ≤ time + dnsTtl ∧
      ∃ th ∈ p.threads, ∃ a : Bytes 4, a.val = addr ∧
        ⟨.hostServ name, some a⟩ ∈ th.trace ∧ ⟨.time, time⟩ ∈ th.trace

/-- A request for a name that succeeds goes to an address that was resolved for this name, and to
the port behind the name. -/
theorem requests_agree (alloc : Bool) (size : Nat) (clock : Int) (t : HashTable)
    (ht : hashtblInit alloc size = some t)
    (p : Pool DnsShared Socks5Cli Call.Result (Int × Socks5Cli))
    (hp : requests.Reach DnsClear ⟨t, [], clock⟩ p) :
    ∀ th ∈ p.threads, ∀ cmd rsv len name rest client,
      th.trace = nameRequest th.arg.clientfd cmd rsv len name ++ rest →
      th.prog = .done (0, client) →
      ∃ lookups addr port, rest = lookups ++ [⟨.readn th.arg.clientfd 2, some port⟩] ∧
        Lookup (cstr name.val) lookups addr ∧ client.request = ⟨.inet, addr, port.val⟩ ∧
        ResolvedFor p th.trace (cstr name.val) addr := by
  obtain ⟨hI, hE⟩ := requests_inv ht hp
  intro th hth cmd rsv len name rest client htrace hprog
  have hrun := hp.runs th hth
  rw [htrace, hprog] at hrun
  obtain ⟨lookups, addr, port, rfl, hlookup, hrequest⟩ := nameRequest_runs hrun
  refine ⟨lookups, addr, port, rfl, hlookup, hrequest, ?_⟩
  cases hlookup with
  | resolved => exact .inl ⟨_, rfl, by simp [htrace]⟩
  | @cached now =>
    have hmem : ⟨.hashtblGet (cstr name.val), (now, some addr)⟩ ∈ th.trace := by simp [htrace]
    obtain ⟨time, hstored, hle, hlive⟩ := hE th hth _ hmem
    exact .inr ⟨now, time, hmem, hle, hlive, stored_resolved rfl hp _ hstored⟩

/-! ### Two names with one hash -/

theorem hashtblInit_free {alloc : Bool} {size : Nat} {t : HashTable}
    (ht : hashtblInit alloc size = some t) : t.store.free = some 0 := by
  rw [hashtblInit] at ht
  split at ht
  · cases ht
  split at ht
  · cases ht
    rfl
  · cases ht

theorem hashtblGet_fresh {alloc : Bool} {size : Nat} {t : HashTable}
    (ht : hashtblInit alloc size = some t) (key : List UInt8) (now : Int) :
    hashtblGet t key now = some (none, t) := by
  rw [hashtblInit] at ht
  split at ht
  · cases ht
  split at ht
  · cases ht
    rfl
  · cases ht

/-- `DNSTBL_SIZE`. -/
def dnstblSize : Nat := 2 ^ 23

/-- The calls of a request for "ab" that the resolver answers with 10.0.0.1. -/
def abTrace : List SessionEvent :=
  nameRequest 4 1 0 2 (.ofPair 97 98) ++
    [⟨.hashtblGet [97, 98], ((0 : Int), none)⟩, ⟨.hostServ [97, 98], some (.ofQuad 10 0 0 1)⟩,
      ⟨.time, (0 : Int)⟩, ⟨.hashtblPut [97, 98] [10, 0, 0, 1] 300, (1 : Int)⟩,
      ⟨.readn 4 2, some (.ofPair 0 80)⟩]

/-- The client after this request. -/
def abClient : Socks5Cli :=
  { Socks5Cli.start 4 with request := ⟨.inet, [10, 0, 0, 1], [0, 80]⟩, cmd := 1 }

theorem ab_request {t : HashTable} (ht : hashtblInit true dnstblSize = some t) : ∃ t',
    DnsInv ⟨t', [⟨[97, 98], [10, 0, 0, 1], 0⟩], 0⟩ ∧
    requests.Reach DnsClear ⟨t, [], 0⟩
      ⟨⟨t', [⟨[97, 98], [10, 0, 0, 1], 0⟩], 0⟩,
        [⟨.start 4, abTrace, .done (0, abClient)⟩]⟩ := by
  have hspawn : requests.Reach DnsClear ⟨t, [], 0⟩ _ :=
    Rules.Reach.init.spawn (a := Socks5Cli.start 4) rfl
  have hver := hspawn.act_last (r := some (Bytes.ofByte 5)) trivial (.other id)
  have hcmd := hver.act_last (r := some (Bytes.ofByte 1)) trivial (.other id)
  have hrsv := hcmd.act_last (r := some (Bytes.ofByte 0)) trivial (.other id)
  have hatyp := hrsv.act_last (r := some (Bytes.ofByte 3)) trivial (.other id)
  have hlen := hatyp.act_last (r := some (Bytes.ofByte 2)) trivial (.other id)
  have hname := hlen.act_last (r := some (.ofPair 97 98)) trivial (.other id)
  have hget := hname.act_last (by simp [DnsClear, latestResolution])
    (.get (Int.le_refl 0) (hashtblGet_fresh ht [97, 98] 0))
  have hhost := hget.act_last (r := some (.ofQuad 10 0 0 1)) trivial (.other id)
  have htime := hhost.act_last trivial (.time (Int.le_refl 0))
  obtain ⟨r, t', B, F, hrun, htable, hiff, hr, -⟩ :=
    (HashtblInv.init ht 0).put [97, 98] [10, 0, 0, 1] 300 (Int.le_refl 0) (Int.le_refl 0)
  have hi : inserted t t' [97, 98] = true := by
    refine hiff.mpr ⟨by simp [hashtblInit_free ht], ?_⟩
    rintro ⟨e, he, -⟩
    cases he
  obtain rfl := hr hi
  have hput := htime.act_last trivial (.put (Int.le_refl 0) (Int.le_refl 0) hrun)
  have hlast := hput.act_last (r := some (.ofPair 0 80)) trivial (.other id)
  have hport : requests.Reach DnsClear ⟨t, [], 0⟩
      ⟨⟨t', if inserted t t' [97, 98] = true then [⟨[97, 98], [10, 0, 0, 1], 0⟩] else [], 0⟩,
        [⟨.start 4, abTrace, .done (0, abClient)⟩]⟩ := hlast
  rw [if_pos hi] at hport htable
  exact ⟨t', ⟨⟨B, F, htable⟩, by simp⟩, hport⟩

theorem hashtblInit_dnstblSize : ∃ t, hashtblInit true dnstblSize = some t :=
  ⟨_, rfl⟩

/-- The calls of a request for a name that finds 10.0.0.1 in the table. -/
def cachedTrace (name : Bytes 2) (now : Int) : List SessionEvent :=
  nameRequest 5 1 0 2 name ++
    [⟨.hashtblGet (cstr name.val), (now, some [10, 0, 0, 1])⟩, ⟨.readn 5 2, some (.ofPair 0 80)⟩]

/-- The client after this request. -/
def cachedClient : Socks5Cli :=
  { Socks5Cli.start 5 with request := ⟨.inet, [10, 0, 0, 1], [0, 80]⟩, cmd := 1 }

theorem cached_request {G : DnsShared → Socks5Cli → SessionEvent → Prop} {init s : DnsShared}
    {ts : List (Thread Socks5Cli Call.Result (Int × Socks5Cli))}
    (hp : requests.Reach G init ⟨s, ts⟩) (hG : ∀ s c e, ¬ e.call.ReadsClock → G s c e)
    (name : Bytes 2) {now : Int} {t : HashTable} (hNow : s.clock ≤ now)
    (h : hashtblGet s.table (cstr name.val) now = some (some [10, 0, 0, 1], t))
    (hclear : G s (.start 5) ⟨.hashtblGet (cstr name.val), (now, some [10, 0, 0, 1])⟩) :
    requests.Reach G init ⟨⟨t, s.stored, now⟩,
      ts ++ [⟨.start 5, cachedTrace name now, .done (0, cachedClient)⟩]⟩ := by
  have hspawn := hp.spawn (a := Socks5Cli.start 5) rfl
  have hver := hspawn.act_last (r := some (Bytes.ofByte 5)) (hG _ _ _ id) (.other id)
  have hcmd := hver.act_last (r := some (Bytes.ofByte 1)) (hG _ _ _ id) (.other id)
  have hrsv := hcmd.act_last (r := some (Bytes.ofByte 0)) (hG _ _ _ id) (.other id)
  have hatyp := hrsv.act_last (r := some (Bytes.ofByte 3)) (hG _ _ _ id) (.other id)
  have hlen := hatyp.act_last (r := some (Bytes.ofByte 2)) (hG _ _ _ id) (.other id)
  have hname := hlen.act_last (r := some name) (hG _ _ _ id) (.other id)
  have hget := hname.act_last hclear (.get hNow h)
  exact hget.act_last (r := some (.ofPair 0 80)) (hG _ _ _ id) (.other id)

theorem dnsClear_of_other (s : DnsShared) (client : Socks5Cli) (e : SessionEvent)
    (h : ¬ e.call.ReadsClock) : DnsClear s client e := by
  unfold DnsClear
  split
  · exact absurd trivial h
  · trivial

/-- A request for "ab" that asks the resolver, and one 200 seconds later that asks the table. -/
theorem requests_agree_ab : ∃ p, ResolvedFor p abTrace [97, 98] [10, 0, 0, 1] ∧
    ResolvedFor p (cachedTrace (.ofPair 97 98) 200) [97, 98] [10, 0, 0, 1] := by
  obtain ⟨t, ht⟩ := hashtblInit_dnstblSize
  obtain ⟨t', hinv, hp⟩ := ab_request ht
  obtain ⟨B, F, htable⟩ := hinv.table
  have hNow : (0 : Int) ≤ 200 := by decide
  obtain ⟨r, t2, -, -, hrun, -, hr⟩ := htable.get [97, 98] hNow
  obtain rfl : r = some [10, 0, 0, 1] := (hr _).mpr ⟨_, rfl, rfl, by decide⟩
  have hclear : DnsClear ⟨t', [⟨[97, 98], [10, 0, 0, 1], 0⟩], 0⟩ (.start 5)
      ⟨.hashtblGet [97, 98], ((200 : Int), some [10, 0, 0, 1])⟩ := by
    simp [DnsClear, latestResolution]
  have hcached := cached_request hp dnsClear_of_other (.ofPair 97 98) hNow hrun hclear
  have hagree := requests_agree true dnstblSize 0 t ht _ hcached
  obtain ⟨lookups, addr, port, -, -, hrequest, hresolved⟩ :=
    hagree _ List.mem_cons_self 1 0 2 (.ofPair 97 98) _ abClient rfl rfl
  obtain rfl : [10, 0, 0, 1] = addr := congrArg Sockaddr.addr hrequest
  obtain ⟨lookups', addr', port', -, -, hrequest', hresolved'⟩ :=
    hagree _ (List.mem_append_right _ List.mem_cons_self) 1 0 2 (.ofPair 97 98) _ cachedClient rfl rfl
  obtain rfl : [10, 0, 0, 1] = addr' := congrArg Sockaddr.addr hrequest'
  exact ⟨_, hresolved, hresolved'⟩

/-- The hashes of "ab" and "bA" are the same: after a request for "ab", a request for "bA" goes to
the address of "ab", and the resolver was never asked for "bA". -/
theorem requests_disagree : ∃ t p, hashtblInit true dnstblSize = some t ∧
    requests.Reach Rules.Always ⟨t, [], 0⟩ p ∧
    ⟨.start 5, cachedTrace (.ofPair 98 65) 0, .done (0, cachedClient)⟩ ∈ p.threads ∧
    ¬ ResolvedFor p (cachedTrace (.ofPair 98 65) 0) [98, 65] [10, 0, 0, 1] := by
  obtain ⟨t, ht⟩ := hashtblInit_dnstblSize
  obtain ⟨t', hinv, hp⟩ := ab_request ht
  obtain ⟨B, F, htable⟩ := hinv.table
  obtain ⟨r, t2, -, -, hrun, -, hr⟩ := htable.get [98, 65] (Int.le_refl 0)
  obtain rfl : r = some [10, 0, 0, 1] := (hr _).mpr ⟨_, rfl, rfl, by decide⟩
  have halways : requests.Reach Rules.Always _ _ := hp.mono fun _ _ _ _ => trivial
  have hcached := cached_request halways (fun _ _ _ _ => trivial) (.ofPair 98 65)
    (Int.le_refl 0) hrun trivial
  refine ⟨t, _, ht, hcached, List.mem_append_right _ List.mem_cons_self, ?_⟩
  have hunasked : ∀ a : Bytes 4, ⟨.hostServ [98, 65], some a⟩ ∉ cachedTrace (.ofPair 98 65) 0 :=
    fun a h => by simp [cachedTrace, nameRequest, byteEvent] at h
  rintro (⟨a, -, h⟩ | ⟨now, time, -, -, -, th, hth, a, -, h, -⟩)
  · exact hunasked a h
  rcases List.mem_append.mp hth with hth | hth
  · rw [List.mem_singleton.mp hth] at h
    simp [abTrace, nameRequest, byteEvent] at h
  · rw [List.mem_singleton.mp hth] at h
    exact hunasked a h

end Silksocks
