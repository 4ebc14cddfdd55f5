import Silksocks.ClientMessages

/-! The arrays that the parsers of the handshake read into.  Here each `readn_timeo` names its
array, and each store of a terminating NUL is a call of its own; without these notes the parsers are
those of `Socks`. -/

namespace Silksocks.Mem

open Program Prog

/-! ### Arrays -/

/-- The variables that the parsers read into. -/
inductive Dest
  /-- A single `uint8_t`. -/
  | byte
  /-- `client->user`. -/
  | user
  /-- `client->passwd`. -/
  | passwd
  /-- The local `buf` of `socks5_readrequest` and `socks5_readreply`. -/
  | buf
  deriving DecidableEq, Repr

def Dest.size : Dest → Nat
  | byte => 1
  | user => 256
  | passwd => 256
  | buf => 256

inductive MemCall
  | call (c : Call)
  | readn (fd : Int) (dest : Dest) (n : Nat)
  | setNul (dest : Dest) (i : Nat)

@[reducible] def MemCall.Result : MemCall → Type
  | call c => c.Result
  | readn _ _ n => Option (Bytes n)
  | setNul _ _ => Unit

/-- An array holds what is asked for, or has the index that is stored to. -/
def MemCall.InBounds : MemCall → Prop
  | call _ => True
  | readn _ dest n => n ≤ dest.size
  | setNul dest i => i < dest.size

abbrev MemProg := Prog MemCall.Result

abbrev MemEvent := Event MemCall.Result

def call (c : Call) : MemProg c.Result := .call (.call c) .done

def fault {α : Type} : MemProg α := .call (.call .fault) Empty.elim

/-- `readn_timeo` of `n` bytes into `dest`. -/
def readn (fd : Int) (dest : Dest) (n : Nat) : MemProg (Option (Bytes n)) :=
  .call (.readn fd dest n) fun r => if r.isSome && dest.size < n then fault else .done r

def readByte (fd : Int) : MemProg (Option UInt8) := do
  let r ← readn fd .byte 1
  return r.map Bytes.byte

/-- `dest[i] = 0`. -/
def setNul (dest : Dest) (i : Nat) : MemProg Unit :=
  .call (.setNul dest i) fun _ => if i < dest.size then .done () else fault

/-- A function that reads into no array. -/
def lift {α : Type} (p : Session α) : MemProg α := p.handle call

/-! ### Parsers -/

/-- The loop of `socks5_choosemethod` over the methods. -/
def readMethods (clientfd : Int) : Nat → UInt8 → MemProg (Int × UInt8)
  | 0, climethod => pure (0, climethod)
  | b + 1, climethod => do
    let some a ← readByte clientfd | return (1, climethod)
    readMethods clientfd b (if a = 0x02 && needauth then 0x02 else climethod)

/-- `socks5_choosemethod`. -/
def socks5Choosemethod (client : Socks5Cli) : MemProg (Int × UInt8) := do
  let some b ← readByte client.clientfd | return (1, 0)
  if b ≠ 0x05 then return (1, 0) else
  let some b ← readByte client.clientfd | return (1, 0)
  let (status, climethod) ← readMethods client.clientfd b.toNat 0
  if status ≠ 0 then return (status, climethod) else
  let climethod := if needauth && climethod = 0 then 0xFF else climethod
  if !(← call (.writen client.clientfd [0x05, climethod])) then return (1, climethod) else
  return (0, climethod)

/-- `socks5_readauth`. -/
def socks5Readauth (client : Socks5Cli) : MemProg (Int × Socks5Cli) := do
  let some b ← readByte client.clientfd | return (1, client)
  if b ≠ 0x01 then return (1, client) else
  let some b ← readByte client.clientfd | return (1, client)
  let some user ← readn client.clientfd .user b.toNat | return (1, client)
  setNul .user b.toNat
  let client := { client with user := cstr user.val }
  let some b ← readByte client.clientfd | return (1, client)
  let some passwd ← readn client.clientfd .passwd b.toNat | return (1, client)
  setNul .passwd b.toNat
  let client := { client with passwd := cstr passwd.val }
  if !(← call (.writen client.clientfd [1, 0])) then return (1, client) else
  return (0, client)

/-- `socks5_readrequest`. -/
def socks5Readrequest (client : Socks5Cli) : MemProg (Int × Socks5Cli) := do
  let some b ← readByte client.clientfd | return (1, client)
  if b ≠ 0x05 then return (1, client) else
  let some b ← readByte client.clientfd | return (1, client)
  if b < 0x01 ∨ 0x03 < b then return (7, client) else
  let client := { client with cmd := b }
  let some _ ← readByte client.clientfd | return (1, client)
  let some b ← readByte client.clientfd | return (1, client)
  match b with
  | 0x01 =>
    let some addr ← readn client.clientfd .buf 4 | return (1, client)
    let client := { client with request.family := .inet, request.addr := addr.val }
    let some port ← readn client.clientfd .buf 2 | return (1, client)
    return (0, { client with request.port := port.val })
  | 0x03 =>
    let some b ← readByte client.clientfd | return (1, client)
    let some name ← readn client.clientfd .buf b.toNat | return (1, client)
    setNul .buf b.toNat
    let some request ← lift (resolve client.request (cstr name.val))
      | return (4, { client with request.family := .inet })
    let client := { client with request }
    let some port ← readn client.clientfd .buf 2 | return (1, client)
    return (0, { client with request.port := port.val })
  | 0x04 =>
    let some addr ← readn client.clientfd .buf 16 | return (1, client)
    let client := { client with request.family := .inet6, request.addr := addr.val }
    let some port ← readn client.clientfd .buf 2 | return (1, client)
    return (0, { client with request.port := port.val })
  | _ => return (8, client)

/-- `socks5_readreply`. -/
def socks5Readreply (client : Socks5Cli) : MemProg Int := do
  let some buf ← readn client.proxyfd .buf 4 | return 4
  match buf.val with
  | [ver, rep, _, atyp] =>
    if ver ≠ 0x05 ∨ rep ≠ 0x00 then return rep.toNat else
    match atyp with
    | 0x01 =>
      let some _ ← readn client.proxyfd .buf 6 | return 2
      return 0
    | 0x03 =>
      let some b ← readByte client.proxyfd | return 2
      let some _ ← readn client.proxyfd .buf (b.toNat + 2) | return 2
      return 0
    | 0x04 =>
      let some _ ← readn client.proxyfd .buf 18 | return 2
      return 0
    | _ => return 8
  | _ => return 4

/-! ### The parsers without the arrays -/

/-- A call without its array. -/
def MemCall.forget : (c : MemCall) → Session c.Result
  | call c => Silksocks.call c
  | readn fd _ n => .call (.readn fd n) .done
  | setNul _ _ => .done ()

def forget {α : Type} (p : MemProg α) : Session α := p.handle MemCall.forget

section Forget

variable {α β : Type}

@[simp] theorem forget_bind (p : MemProg α) (f : α → MemProg β) :
    forget (p >>= f) = forget p >>= fun a => forget (f a) := handle_bind

@[simp] theorem forget_done (a : α) : forget (.done a) = .done a := rfl

@[simp] theorem forget_ite (c : Prop) [Decidable c] (p q : MemProg α) :
    forget (if c then p else q) = if c then forget p else forget q := handle_ite

@[simp] theorem forget_fault : forget (fault : MemProg α) = Silksocks.fault :=
  congrArg (Prog.call Call.fault) (funext fun r => r.elim)

@[simp] theorem forget_call (c : Call) : forget (call c) = Silksocks.call c := rfl

@[simp] theorem forget_readn (fd : Int) (dest : Dest) (n : Nat) :
    forget (readn fd dest n) = readInto fd dest.size n := by
  refine congrArg (Prog.call (Call.readn fd n)) (funext fun r => ?_)
  exact (forget_ite _ _ _).trans (by simp)

@[simp] theorem forget_readByte (fd : Int) : forget (readByte fd) = Silksocks.readByte fd := by
  simp only [readByte, forget_bind, forget_readn, pure_eq, forget_done]
  rw [readInto_of_le (show 1 ≤ Dest.byte.size from Nat.le_refl 1)]
  rfl

/-- A length byte is an index of an array of 256. -/
@[simp] theorem forget_setNul {dest : Dest} (b : UInt8) (h : dest.size = 256) :
    forget (setNul dest b.toNat) = .done () := by
  have hb := b.toNat_lt
  refine (forget_ite _ _ _).trans (if_pos ?_)
  omega

@[simp] theorem forget_lift (p : Session α) : forget (lift p) = p := by
  induction p with
  | done a => rfl
  | call c next ih => exact congrArg (Prog.call c) (funext ih)

variable {m m' : MemProg α} {p p' : Session α}

theorem forget_bind_eq {f : α → MemProg β} {g : α → Session β} (h : forget m = p)
    (hf : ∀ a, forget (f a) = g a) : forget (m >>= f) = p >>= g := by
  rw [forget_bind, h, funext hf]

theorem forget_ite_eq {c : Prop} [Decidable c] (h : forget m = p) (h' : forget m' = p') :
    forget (if c then m else m') = if c then p else p' := by
  rw [forget_ite, h, h']

theorem forget_setNul_eq {dest : Dest} {b : UInt8} (hdest : dest.size = 256) (h : forget m = p) :
    forget (setNul dest b.toNat >>= fun _ => m) = p := by
  rw [forget_bind, forget_setNul b hdest, done_bind, h]

theorem forget_readMethods (clientfd : Int) (b : Nat) (climethod : UInt8) :
    forget (readMethods clientfd b climethod) = Silksocks.readMethods clientfd b climethod := by
  induction b generalizing climethod with
  | zero => rfl
  | succ b ih =>
    refine forget_bind_eq (forget_readByte _) fun a => ?_
    cases a with
    | none => rfl
    | some a => exact ih _

theorem forget_socks5Choosemethod (client : Socks5Cli) :
    forget (socks5Choosemethod client) = Silksocks.socks5Choosemethod client := by
  refine forget_bind_eq (forget_readByte _) fun b => ?_
  cases b with
  | none => rfl
  | some b =>
  refine forget_ite_eq rfl (forget_bind_eq (forget_readByte _) fun b => ?_)
  cases b with
  | none => rfl
  | some b =>
  refine forget_bind_eq (forget_readMethods _ _ _) fun r => forget_ite_eq rfl ?_
  exact forget_bind_eq rfl fun ok => forget_ite_eq rfl rfl

theorem forget_socks5Readauth (client : Socks5Cli) :
    forget (socks5Readauth client) = Silksocks.socks5Readauth client := by
  refine forget_bind_eq (forget_readByte _) fun b => ?_
  cases b with
  | none => rfl
  | some b =>
  refine forget_ite_eq rfl (forget_bind_eq (forget_readByte _) fun ulen => ?_)
  cases ulen with
  | none => rfl
  | some ulen =>
  refine forget_bind_eq (forget_readn _ .user _) fun user => ?_
  cases user with
  | none => rfl
  | some user =>
  refine forget_setNul_eq rfl (forget_bind_eq (forget_readByte _) fun plen => ?_)
  cases plen with
  | none => rfl
  | some plen =>
  refine forget_bind_eq (forget_readn _ .passwd _) fun passwd => ?_
  cases passwd with
  | none => rfl
  | some passwd =>
  exact forget_setNul_eq rfl (forget_bind_eq rfl fun ok => forget_ite_eq rfl rfl)

theorem forget_socks5Readrequest (client : Socks5Cli) :
    forget (socks5Readrequest client) = Silksocks.socks5Readrequest client := by
  refine forget_bind_eq (forget_readByte _) fun ver => ?_
  cases ver with
  | none => rfl
  | some ver =>
  refine forget_ite_eq rfl (forget_bind_eq (forget_readByte _) fun cmd => ?_)
  cases cmd with
  | none => rfl
  | some cmd =>
  refine forget_ite_eq rfl (forget_bind_eq (forget_readByte _) fun rsv => ?_)
  cases rsv with
  | none => rfl
  | some rsv =>
  refine forget_bind_eq (forget_readByte _) fun atyp => ?_
  cases atyp with
  | none => rfl
  | some atyp =>
  dsimp only
  split
  · refine forget_bind_eq (forget_readn _ .buf _) fun addr => ?_
    cases addr with
    | none => rfl
    | some addr => exact forget_bind_eq (forget_readn _ .buf _) fun port => by cases port <;> rfl
  · refine forget_bind_eq (forget_readByte _) fun len => ?_
    cases len with
    | none => rfl
    | some len =>
    refine forget_bind_eq (forget_readn _ .buf _) fun name => ?_
    cases name with
    | none => rfl
    | some name =>
    refine forget_setNul_eq rfl (forget_bind_eq (forget_lift _) fun request => ?_)
    cases request with
    | none => rfl
    | some request => exact forget_bind_eq (forget_readn _ .buf _) fun port => by cases port <;> rfl
  · refine forget_bind_eq (forget_readn _ .buf _) fun addr => ?_
    cases addr with
    | none => rfl
    | some addr => exact forget_bind_eq (forget_readn _ .buf _) fun port => by cases port <;> rfl
  · simp

theorem forget_socks5Readreply (client : Socks5Cli) :
    forget (socks5Readreply client) = Silksocks.socks5Readreply client := by
  refine forget_bind_eq (forget_readn _ .buf _) fun buf => ?_
  match buf with
  | none => rfl
  | some ⟨[ver, rep, rsv, atyp], _⟩ =>
    refine forget_ite_eq rfl ?_
    split
    · exact forget_bind_eq (forget_readn _ .buf _) fun r => by cases r <;> rfl
    · refine forget_bind_eq (forget_readByte _) fun len => ?_
      cases len with
      | none => rfl
      | some len => exact forget_bind_eq (forget_readn _ .buf _) fun r => by cases r <;> rfl
    · exact forget_bind_eq (forget_readn _ .buf _) fun r => by cases r <;> rfl
    · simp

end Forget

/-! ### Bounds -/

@[simp] theorem fault_inBounds {α : Type} : (fault : MemProg α).All MemCall.InBounds :=
  ⟨trivial, fun r => r.elim⟩

theorem readn_inBounds {α : Type} {fd : Int} {dest : Dest} {n : Nat} {f : Option (Bytes n) → MemProg α}
    (hn : n ≤ dest.size) (hf : ∀ r, (f r).All MemCall.InBounds) :
    (readn fd dest n >>= f).All MemCall.InBounds := by
  refine ⟨hn, fun r => ?_⟩
  refine All.bind (all_ite.mpr ⟨fun _ => fault_inBounds, fun _ => all_done⟩) hf

theorem readByte_inBounds {α : Type} {fd : Int} {f : Option UInt8 → MemProg α}
    (hf : ∀ r, (f r).All MemCall.InBounds) : (readByte fd >>= f).All MemCall.InBounds := by
  rw [readByte, Prog.bind_assoc]
  exact readn_inBounds (Nat.le_refl 1) fun r => hf _

theorem setNul_inBounds {α : Type} {dest : Dest} {b : UInt8} {m : MemProg α} (hdest : dest.size = 256)
    (hm : m.All MemCall.InBounds) : (setNul dest b.toNat >>= fun _ => m).All MemCall.InBounds := by
  have hb := b.toNat_lt
  refine ⟨?_, fun _ => ?_⟩
  · show b.toNat < dest.size
    omega
  · exact All.bind (all_ite.mpr ⟨fun _ => all_done, fun _ => fault_inBounds⟩) fun _ => hm

theorem lengthByte_le {dest : Dest} (b : UInt8) (hdest : dest.size = 256) : b.toNat ≤ dest.size := by
  have hb := b.toNat_lt
  omega

theorem readMethods_inBounds (clientfd : Int) (b : Nat) (climethod : UInt8) :
    (readMethods clientfd b climethod).All MemCall.InBounds := by
  induction b generalizing climethod with
  | zero => trivial
  | succ b ih =>
    refine readByte_inBounds fun a => ?_
    cases a with
    | none => trivial
    | some a => exact ih _

theorem socks5Choosemethod_inBounds (client : Socks5Cli) :
    (socks5Choosemethod client).All MemCall.InBounds := by
  refine readByte_inBounds fun ver => ?_
  cases ver with
  | none => trivial
  | some ver =>
  refine all_ite.mpr ⟨fun _ => trivial, fun _ => readByte_inBounds fun n => ?_⟩
  cases n with
  | none => trivial
  | some n =>
  refine (readMethods_inBounds _ _ _).bind fun r => all_ite.mpr ⟨fun _ => trivial, fun _ => ?_⟩
  exact ⟨trivial, fun ok => all_ite.mpr ⟨fun _ => trivial, fun _ => trivial⟩⟩

theorem socks5Readauth_inBounds (client : Socks5Cli) :
    (socks5Readauth client).All MemCall.InBounds := by
  refine readByte_inBounds fun ver => ?_
  cases ver with
  | none => trivial
  | some ver =>
  refine all_ite.mpr ⟨fun _ => trivial, fun _ => readByte_inBounds fun ulen => ?_⟩
  cases ulen with
  | none => trivial
  | some ulen =>
  refine readn_inBounds (lengthByte_le ulen rfl) fun user => ?_
  cases user with
  | none => trivial
  | some user =>
  refine setNul_inBounds rfl (readByte_inBounds fun plen => ?_)
  cases plen with
  | none => trivial
  | some plen =>
  refine readn_inBounds (lengthByte_le plen rfl) fun passwd => ?_
  cases passwd with
  | none => trivial
  | some passwd =>
  refine setNul_inBounds rfl ⟨trivial, fun ok => ?_⟩
  exact all_ite.mpr ⟨fun _ => trivial, fun _ => trivial⟩

theorem lift_inBounds {α : Type} (p : Session α) : (lift p).All MemCall.InBounds :=
  all_true.handle fun _ _ => ⟨trivial, fun _ => trivial⟩

theorem socks5Readrequest_inBounds (client : Socks5Cli) :
    (socks5Readrequest client).All MemCall.InBounds := by
  refine readByte_inBounds fun ver => ?_
  cases ver with
  | none => trivial
  | some ver =>
  refine all_ite.mpr ⟨fun _ => trivial, fun _ => readByte_inBounds fun cmd => ?_⟩
  cases cmd with
  | none => trivial
  | some cmd =>
  refine all_ite.mpr ⟨fun _ => trivial, fun _ => readByte_inBounds fun rsv => ?_⟩
  cases rsv with
  | none => trivial
  | some rsv =>
  refine readByte_inBounds fun atyp => ?_
  cases atyp with
  | none => trivial
  | some atyp =>
  dsimp only
  split
  · refine readn_inBounds (by decide) fun addr => ?_
    cases addr with
    | none => trivial
    | some addr => exact readn_inBounds (by decide) fun port => by cases port <;> trivial
  · refine readByte_inBounds fun len => ?_
    cases len with
    | none => trivial
    | some len =>
    refine readn_inBounds (lengthByte_le len rfl) fun name => ?_
    cases name with
    | none => trivial
    | some name =>
    refine setNul_inBounds rfl ((lift_inBounds _).bind fun request => ?_)
    cases request with
    | none => trivial
    | some request => exact readn_inBounds (by decide) fun port => by cases port <;> trivial
  · refine readn_inBounds (by decide) fun addr => ?_
    cases addr with
    | none => trivial
    | some addr => exact readn_inBounds (by decide) fun port => by cases port <;> trivial
  · trivial

/-- The parsers of the handshake. -/
inductive Parser
  | choosemethod
  | readauth
  | readrequest
  | readreply
  deriving DecidableEq, Repr

/-- The status of a parser. -/
def Parser.body (client : Socks5Cli) : Parser → MemProg Int
  | choosemethod => socks5Choosemethod client >>= fun r => pure r.1
  | readauth => socks5Readauth client >>= fun r => pure r.1
  | readrequest => socks5Readrequest client >>= fun r => pure r.1
  | readreply => socks5Readreply client

/-- A call that a run has made, or is about to make. -/
def Made {α : Type} (t : List MemEvent) (q : MemProg α) (c : MemCall) : Prop :=
  (∃ e ∈ t, e.call = c) ∨ ∃ next, q = .call c next

/-- All calls of a run are in bounds. -/
def Safe {α : Type} (t : List MemEvent) (q : MemProg α) : Prop := ∀ c, Made t q c → c.InBounds

/-- The bytes that a read returns. -/
def arrivedBytes : MemEvent → List UInt8
  | ⟨.readn _ _ _, some bs⟩ => bs.val
  | _ => []

/-- The bytes that a run has read. -/
def arrived (t : List MemEvent) : List UInt8 := t.flatMap arrivedBytes

/-- A reply of success with a name of 255 bytes. -/
def LongName (bs : List UInt8) : Prop := ∃ rsv, [5, 0, rsv, 3, 255] <+: bs

section Safe

variable {α : Type} {p q : MemProg α} {t : List MemEvent} {e : MemEvent} {c : MemCall}
  {next : c.Result → MemProg α}

theorem safe_cons : Safe (e :: t) q ↔ e.call.InBounds ∧ Safe t q := by
  constructor
  · refine fun h => ⟨h _ (.inl ⟨e, List.mem_cons_self, rfl⟩), fun c hc => h c ?_⟩
    rcases hc with ⟨e', he', hc⟩ | hc
    · exact .inl ⟨e', List.mem_cons_of_mem _ he', hc⟩
    · exact .inr hc
  · rintro ⟨he, h⟩ c (⟨e', he', rfl⟩ | hc)
    · rcases List.mem_cons.mp he' with rfl | he'
      · exact he
      · exact h _ (.inl ⟨e', he', rfl⟩)
    · exact h c (.inr hc)

theorem safe_of_all (h : p.All MemCall.InBounds) (hrun : Runs p t q) : Safe t q := by
  induction hrun with
  | nil p =>
    rintro c (⟨e, he, -⟩ | ⟨next, rfl⟩)
    · cases he
    · exact h.1
  | cons _ ih => exact safe_cons.mpr ⟨h.1, ih (h.2 _)⟩

/-- A call of a run is made, also when it is the next one. -/
theorem not_safe_of_call (hc : ¬ c.InBounds) (hrun : Runs (.call c next) t q) : ¬ Safe t q := by
  intro h
  rcases runs_call.mp hrun with ⟨rfl, rfl⟩ | ⟨r, t', rfl, -⟩
  · exact hc (h c (.inr ⟨next, rfl⟩))
  · exact hc (safe_cons.mp h).1

theorem readn_bind {fd : Int} {dest : Dest} {n : Nat} {f : Option (Bytes n) → MemProg α}
    (hn : n ≤ dest.size) : readn fd dest n >>= f = .call (.readn fd dest n) f := by
  simp [readn, Nat.not_lt.mpr hn]

theorem readByte_bind {fd : Int} {f : Option UInt8 → MemProg α} :
    readByte fd >>= f = .call (.readn fd .byte 1) fun r => f (r.map Bytes.byte) := by
  rw [readByte, Prog.bind_assoc]
  exact readn_bind (Nat.le_refl 1)

theorem not_longName_of_short {bs : List UInt8} (h : bs.length < 5) : ¬ LongName bs := by
  rintro ⟨rsv, hpre⟩
  have hlen := hpre.length_le
  simp at hlen
  omega

/-- What `socks5_readreply` does behind the header 05 00 RSV 03. -/
theorem boundName_safe_iff {fd : Int} {rsv : UInt8} {f : Option UInt8 → MemProg Int} {q : MemProg Int}
    (hrun : Runs (readByte fd >>= f) t q) (hnone : ∃ st, f none = .done st)
    (hsome : ∀ len : UInt8, ∃ g, f (some len) = readn fd .buf (len.toNat + 2) >>= g ∧
      ∀ r, (g r).All MemCall.InBounds) :
    Safe t q ↔ ¬ LongName ([5, 0, rsv, 3] ++ arrived t) := by
  rw [readByte_bind] at hrun
  rcases runs_call.mp hrun with ⟨rfl, rfl⟩ | ⟨r, t, rfl, h1⟩
  · refine iff_of_true ?_ (not_longName_of_short (by simp [arrived]))
    rintro c (⟨e, he, -⟩ | ⟨next, hc⟩)
    · cases he
    · cases hc
      exact Nat.le_refl 1
  cases r with
  | none =>
    obtain ⟨st, hst⟩ := hnone
    rw [Option.map_none, hst] at h1
    obtain ⟨rfl, rfl⟩ := runs_done.mp h1
    refine iff_of_true ?_ (not_longName_of_short (by simp [arrived, arrivedBytes]))
    exact safe_cons.mpr ⟨Nat.le_refl 1, safe_of_all all_done h1⟩
  | some len =>
    obtain ⟨g, hg, hall⟩ := hsome len.byte
    rw [Option.map_some, hg] at h1
    have harrived : arrived (⟨.readn fd .byte 1, some len⟩ :: t) = [len.byte] ++ arrived t := by
      obtain ⟨bs, hbs⟩ := len
      obtain ⟨c, rfl⟩ := List.length_eq_one_iff.mp hbs
      rfl
    rw [harrived, safe_cons]
    by_cases hlen : len.byte = 255
    · -- 257 bytes are asked for
      refine iff_of_false (fun h => ?_) fun h => h ⟨rsv, by simp [hlen]⟩
      refine not_safe_of_call ?_ h1 h.2
      rw [hlen]
      exact Nat.not_le.mpr (by decide)
    · have hroom : len.byte.toNat + 2 ≤ Dest.buf.size := by
        have hlt := len.byte.toNat_lt
        have hne : len.byte.toNat ≠ 255 := fun heq => hlen (UInt8.toNat_inj.mp heq)
        show _ ≤ 256
        omega
      refine iff_of_true ⟨Nat.le_refl 1, safe_of_all (readn_inBounds hroom hall) h1⟩ ?_
      rintro ⟨rsv', hpre⟩
      simp [Ne.symm hlen] at hpre

theorem readreply_safe_iff {client : Socks5Cli} {q : MemProg Int}
    (hrun : Runs (socks5Readreply client) t q) : Safe t q ↔ ¬ LongName (arrived t) := by
  have hall : ∀ {n : Nat} {f : Option (Bytes n) → MemProg Int} {t : List MemEvent},
      n ≤ Dest.buf.size → (∀ r, (f r).All MemCall.InBounds) →
      Runs (readn client.proxyfd .buf n >>= f) t q → Safe t q := fun hn hf hrun =>
    safe_of_all (readn_inBounds hn hf) hrun
  rw [socks5Readreply, readn_bind (show 4 ≤ Dest.buf.size by decide)] at hrun
  rcases runs_call.mp hrun with ⟨rfl, rfl⟩ | ⟨r, t, rfl, h1⟩
  · refine iff_of_true ?_ (not_longName_of_short (by simp [arrived]))
    rintro c (⟨e, he, -⟩ | ⟨next, hc⟩)
    · cases he
    · cases hc
      show 4 ≤ 256
      decide
  have hheader : (MemCall.readn client.proxyfd .buf 4).InBounds := by
    show 4 ≤ 256
    decide
  rw [safe_cons, and_iff_right hheader]
  match r with
  | none =>
    obtain ⟨rfl, rfl⟩ := runs_done.mp h1
    exact iff_of_true (safe_of_all all_done h1)
      (not_longName_of_short (by simp [arrived, arrivedBytes]))
  | some ⟨[ver, rep, rsv, atyp], _⟩ =>
    have harrived : ∀ h, arrived (⟨.readn client.proxyfd .buf 4, some ⟨[ver, rep, rsv, atyp], h⟩⟩ ::
        t) = [ver, rep, rsv, atyp] ++ arrived t := fun _ => rfl
    rw [harrived]
    dsimp only at h1
    split at h1
    · obtain ⟨rfl, rfl⟩ := runs_done.mp h1
      exact iff_of_true (safe_of_all all_done h1) (not_longName_of_short (by simp [arrived]))
    rename_i hsuccess
    obtain ⟨rfl, rfl⟩ : ver = 5 ∧ rep = 0 := by simpa using hsuccess
    split at h1
    · refine iff_of_true (hall (by decide) (fun r => by cases r <;> trivial) h1) ?_
      rintro ⟨rsv', hpre⟩
      simp at hpre
    · refine boundName_safe_iff h1 ⟨2, rfl⟩ fun len => ⟨_, rfl, fun r => by cases r <;> trivial⟩
    · refine iff_of_true (hall (by decide) (fun r => by cases r <;> trivial) h1) ?_
      rintro ⟨rsv', hpre⟩
      simp at hpre
    · rename_i hipv4 hname hipv6
      obtain ⟨rfl, rfl⟩ := runs_done.mp h1
      exact iff_of_true (safe_of_all all_done h1) (not_longName_of_short (by simp [arrived]))

end Safe

/-- The calls of every parser are in bounds, but for the read of a name of 255 bytes and its port
that an upstream sends. -/
theorem parser_safe_iff (parser : Parser) (client : Socks5Cli) {t : List MemEvent} {q : MemProg Int}
    (hrun : Runs (parser.body client) t q) :
    Safe t q ↔ ¬ (parser = .readreply ∧ LongName (arrived t)) := by
  cases parser with
  | choosemethod =>
    refine iff_of_true (safe_of_all ?_ hrun) (by simp)
    exact (socks5Choosemethod_inBounds client).bind fun _ => all_done
  | readauth =>
    refine iff_of_true (safe_of_all ?_ hrun) (by simp)
    exact (socks5Readauth_inBounds client).bind fun _ => all_done
  | readrequest =>
    refine iff_of_true (safe_of_all ?_ hrun) (by simp)
    exact (socks5Readrequest_inBounds client).bind fun _ => all_done
  | readreply => simpa using readreply_safe_iff hrun

/-- A byte that is read. -/
def memByte (fd : Int) (b : UInt8) : MemEvent := ⟨.readn fd .byte 1, some (.ofByte b)⟩

/-- The longest user that a client can send. -/
theorem parser_safe_user : ∃ next : Option (Bytes 255) → MemProg Int,
    Safe [memByte 4 1, memByte 4 255] (.call (.readn 4 .user 255) next) := by
  have hrun : ∃ next : Option (Bytes 255) → MemProg Int, Runs (Parser.readauth.body (.start 4))
      [memByte 4 1, memByte 4 255] (.call (.readn 4 .user 255) next) := ⟨_, .cons (.cons (.nil _))⟩
  obtain ⟨next, hrun⟩ := hrun
  exact ⟨next, (parser_safe_iff .readauth (.start 4) hrun).mpr (by simp)⟩

/-- Behind 05 00 00 03 FF, 257 bytes are asked for into the array of 256. -/
theorem longName_overruns : ∃ next : Option (Bytes 257) → MemProg Int,
    Runs (Parser.readreply.body { Socks5Cli.start 4 with proxyfd := 5 })
      [⟨.readn 5 .buf 4, some (.ofQuad 5 0 0 3)⟩, memByte 5 255]
      (.call (.readn 5 .buf 257) next) ∧ ¬ (MemCall.readn 5 .buf 257).InBounds :=
  ⟨_, .cons (.cons (.nil _)), by simp [MemCall.InBounds, Dest.size]⟩

end Silksocks.Mem
