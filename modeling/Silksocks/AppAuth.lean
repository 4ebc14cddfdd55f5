import Silksocks.CacheDb
import Silksocks.Lib.Pool
import Silksocks.Socks

/-! Any number of logins in `socks5_doauth` at once, in front of a database that does not change.
As long as no lookup in `cacheapp` finds the hash of its user under the answer for another user, all
of them decide what the database says. -/

namespace Silksocks

open Program OpenAddressing

/-- What the logins share: `cacheapp`, and the users whose passwords were stored in it, the latest
first. -/
structure AppShared where
  cache : CacheAp
  stored : List (List UInt8)

/-- The passwords of the users in the database. -/
abbrev AppDb := List UInt8 → Option (List UInt8)

/-- The calls of a login.  Each function of the cache holds its mutex, so a call is one step. -/
inductive AppAct (db : AppDb) : AppShared → Socks5Cli → SessionEvent → AppShared → Prop
  | getapp {s : AppShared} {client : Socks5Cli} {app : List UInt8} {r : Option (List UInt8)}
      (h : cacheGetapp s.cache app = some r) : AppAct db s client ⟨.cacheGetapp app, r⟩ s
  | putapp {s : AppShared} {client : Socks5Cli} {app passwd : List UInt8} {alloc : Nat → Bool}
      {c : CacheAp} (h : cachePutapp alloc s.cache app passwd = some c) :
      AppAct db s client ⟨.cachePutapp app passwd, ()⟩
        ⟨c, if putDropped alloc s.cache then s.stored else app :: s.stored⟩
  | sqlget {s : AppShared} {client : Socks5Cli} {app : List UInt8} :
      AppAct db s client ⟨.sqlgetApppasswd app, db app⟩ s

def logins (db : AppDb) : Rules AppShared Socks5Cli Call.Result Int where
  body := socks5Doauth
  spawn s _ s' := s' = s
  act := AppAct db

/-- No lookup finds the hash of its user under the answer for another user. -/
def AppClear (db : AppDb) (s : AppShared) (_ : Socks5Cli) (e : SessionEvent) : Prop :=
  ∀ app, e.call = .cacheGetapp app → NoClash hashStr db s.cache s.stored app

/-! ### One login -/

/-- What a login relies on: its cache and its database say what the database says. -/
def AppAnswer (db : AppDb) : SessionEvent → Prop
  | ⟨.cacheGetapp app, r⟩ => ∀ passwd, r = some passwd → db app = some passwd
  | ⟨.sqlgetApppasswd app, r⟩ => r = db app
  | _ => True

/-- What a login guarantees: it makes no other calls, and caches what the database says. -/
def AppCall (db : AppDb) : Call → Prop
  | .cacheGetapp _ | .sqlgetApppasswd _ => True
  | .cachePutapp app passwd => db app = some passwd
  | _ => False

abbrev appContract (db : AppDb) : Contract (List SessionEvent) Call.Result :=
  .history (fun _ => AppCall db) (AppAnswer db)

theorem socks5Doauth_wp (db : AppDb) (client : Socks5Cli) :
    (appContract db).wp (fun _ st => st = 0 ↔ db client.user = some client.passwd) []
      (socks5Doauth client) := by
  have hcompare : ∀ passwd, db client.user = some passwd →
      ((if client.passwd = passwd then (0 : Int) else 5) = 0 ↔
        db client.user = some client.passwd) := by
    intro passwd hdb
    rw [hdb]
    by_cases h : client.passwd = passwd
    · simp [h]
    · simp [h, Ne.symm h]
  refine ⟨trivial, fun cached hcached => ?_⟩
  cases cached with
  | some passwd => exact hcompare passwd (hcached passwd rfl)
  | none =>
    refine ⟨trivial, fun stored (hstored : stored = db client.user) => ?_⟩
    cases stored with
    | none =>
      show (5 : Int) = 0 ↔ _
      simp [← hstored]
    | some passwd => exact ⟨hstored.symm, fun _ _ => hcompare passwd hstored.symm⟩

/-! ### All logins -/

variable {db : AppDb} {c : CacheAp} {p : Pool AppShared Socks5Cli Call.Result Int}

theorem logins_inv {alloc : Nat → Bool} {n : Nat} (hc : cacheInitapp alloc n = some c)
    (hp : (logins db).Reach (AppClear db) ⟨c, []⟩ p) :
    CacheAgrees hashStr db appHome p.shared.cache p.shared.stored ∧
      ∀ th ∈ p.threads, ∀ e ∈ th.trace, AppAnswer db e := by
  refine hp.calls (I := fun s => CacheAgrees hashStr db appHome s.cache s.stored)
    (E := fun _ _ e => AppAnswer db e) (cacheInit_agrees hc) ?_ ?_
  · rintro s a _ rfl hI
    exact ⟨hI, fun _ _ h => h⟩
  · intro s client t call next r s' hrun hclear hact hI ht
    have hcall := Contract.history_runs (socks5Doauth_wp db client) hrun ht
    refine ⟨?_, ?_, fun _ _ h => h⟩
    · cases hact with
      | getapp h => exact hI
      | sqlget => exact hI
      | putapp h => exact hI.put hcall.1 (h ▸ cachePutapp_spec hI.inv _ _ _)
    · cases hact with
      | getapp h =>
        rintro passwd rfl
        exact hI.get (hclear _ rfl) h
      | sqlget => exact rfl
      | putapp h => exact trivial

/-- The call that a login is about to make has a result. -/
theorem logins_progress (h : CacheAgrees hashStr db appHome p.shared.cache p.shared.stored)
    (client : Socks5Cli) {call : Call} (hcall : AppCall db call) :
    ∃ r s, AppAct db p.shared client ⟨call, r⟩ s := by
  cases call with
  | cacheGetapp app =>
    obtain ⟨r, hr⟩ := h.inv.get_total (hashStr app)
    exact ⟨r, _, .getapp hr⟩
  | sqlgetApppasswd app => exact ⟨_, _, .sqlget⟩
  | cachePutapp app passwd =>
    rcases cachePutapp_spec h.inv (fun _ => true) app passwd with ⟨-, hput⟩ | ⟨c', -, hput, -⟩
    · exact ⟨(), _, .putapp hput⟩
    · exact ⟨(), _, .putapp hput⟩
  | _ => exact hcall.elim

/-- Every login that ends has decided what the database says, and every other one can go on. -/
theorem logins_agree (db : AppDb) (alloc : Nat → Bool) (n : Nat) (c : CacheAp)
    (hc : cacheInitapp alloc n = some c) (p : Pool AppShared Socks5Cli Call.Result Int)
    (hp : (logins db).Reach (AppClear db) ⟨c, []⟩ p) :
    ∀ th ∈ p.threads,
      (∀ st, th.prog = .done st → (st = 0 ↔ db th.arg.user = some th.arg.passwd)) ∧
      ∀ call next, th.prog = .call call next → ∃ r s, AppAct db p.shared th.arg ⟨call, r⟩ s := by
  obtain ⟨hI, hE⟩ := logins_inv hc hp
  rintro ⟨client, t, prog⟩ hth
  have hwp := Contract.history_runs (socks5Doauth_wp db client) (hp.runs _ hth) (hE _ hth)
  refine ⟨?_, ?_⟩
  · rintro st rfl
    exact hwp
  · rintro call next rfl
    exact logins_progress hI client hwp.1

/-- A client with a login. -/
def loginClient (user passwd : List UInt8) : Socks5Cli := { Socks5Cli.start 4 with user, passwd }

/-- The only user is "ab", with the password "x". -/
def abDb : AppDb := fun user => if user = [97, 98] then some [120] else none

/-- A login of "ab" with "x", which asks the database, and one with "y", which asks the cache. -/
theorem logins_agree_ab : ((0 : Int) = 0 ↔ abDb [97, 98] = some [120]) ∧
    ((5 : Int) = 0 ↔ abDb [97, 98] = some [121]) := by
  have hspawn : (logins abDb).Reach (AppClear abDb) ⟨Table.zeroed 16, []⟩ _ :=
    Rules.Reach.init.spawn (a := loginClient [97, 98] [120]) rfl
  have hget := hspawn.act_last (r := none) (by simp [AppClear, NoClash, latestStored]) (.getapp rfl)
  have hsql := hget.act_last (by simp [AppClear]) .sqlget
  have hput := hsql.act_last (by simp [AppClear])
    (.putapp (rfl : cachePutapp (fun _ => true) _ [97, 98] [120] = some _))
  have hspawn' := hput.spawn (a := loginClient [97, 98] [121]) rfl
  have hget' := hspawn'.act_last (r := some [120])
    (by simp [AppClear, NoClash, latestStored, putDropped, loginClient]) (.getapp rfl)
  have hagree := logins_agree abDb (fun _ => true) 16 _ rfl _ hget'
  exact ⟨(hagree _ List.mem_cons_self).1 0 rfl,
    (hagree _ (List.mem_append_right _ List.mem_cons_self)).1 5 rfl⟩

/-- The hashes of "ab" and "bA" are the same: after a login of "ab" with "x", a login of "bA" with
"x" succeeds, though the database has no user "bA". -/
theorem logins_disagree : ∃ p, (logins abDb).Reach Rules.Always ⟨Table.zeroed 16, []⟩ p ∧
    cacheInitapp (fun _ => true) 16 = some (Table.zeroed 16) ∧
    ∃ th ∈ p.threads, th.arg.user = [98, 65] ∧ th.prog = .done 0 ∧
      ¬ ((0 : Int) = 0 ↔ abDb th.arg.user = some th.arg.passwd) := by
  have hspawn : (logins abDb).Reach Rules.Always ⟨Table.zeroed 16, []⟩ _ :=
    Rules.Reach.init.spawn (a := loginClient [97, 98] [120]) rfl
  have hget := hspawn.act_last (r := none) trivial (.getapp rfl)
  have hsql := hget.act_last trivial .sqlget
  have hput := hsql.act_last trivial
    (.putapp (rfl : cachePutapp (fun _ => true) _ [97, 98] [120] = some _))
  have hspawn' := hput.spawn (a := loginClient [98, 65] [120]) rfl
  have hget' := hspawn'.act_last (r := some [120]) trivial (.getapp rfl)
  exact ⟨_, hget', rfl, _, List.mem_append_right _ List.mem_cons_self, rfl, rfl, by decide⟩

end Silksocks
