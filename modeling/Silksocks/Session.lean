import Silksocks.Cache
import Silksocks.Lib.Program

/-! What a session of `socks.c` works with: its `struct socks5_cli`, and the calls that it makes to
the kernel, the caches, the database and the resolver.  A session is a `Prog` over these calls, so
its runs leave open what they return. -/

namespace Silksocks

open Program

/-- An array of `n` bytes. -/
def Bytes (n : Nat) : Type := { bs : List UInt8 // bs.length = n }

/-- The only byte of an array of one. -/
def Bytes.byte (b : Bytes 1) : UInt8 := b.val.headD 0

def Bytes.ofByte (c : UInt8) : Bytes 1 := ⟨[c], rfl⟩

def Bytes.ofPair (a b : UInt8) : Bytes 2 := ⟨[a, b], rfl⟩

def Bytes.ofQuad (a b c d : UInt8) : Bytes 4 := ⟨[a, b, c, d], rfl⟩

def Bytes.ofList (bs : List UInt8) : Bytes bs.length := ⟨bs, rfl⟩

@[simp] theorem Bytes.byte_ofByte (c : UInt8) : (Bytes.ofByte c).byte = c := rfl

theorem Bytes.ofByte_byte (b : Bytes 1) : Bytes.ofByte b.byte = b := by
  obtain ⟨bs, h⟩ := b
  obtain ⟨c, rfl⟩ := List.length_eq_one_iff.mp h
  rfl

/-! ### Socket addresses -/

inductive Family
  | unspec
  | inet
  | inet6
  deriving DecidableEq, Repr

/-- `struct sockaddr_storage` and `struct sockaddr_in`; the bytes are in network order. -/
structure Sockaddr where
  family : Family
  addr : List UInt8
  port : List UInt8
  deriving DecidableEq, Repr

/-- A zeroed address, whose family is `AF_UNSPEC`. -/
def Sockaddr.zeroed : Sockaddr := ⟨.unspec, [0, 0, 0, 0], [0, 0]⟩

/-- `sockADDRLEN`. -/
def Sockaddr.addrLen (sa : Sockaddr) : Nat := if sa.family = .inet6 then 16 else 4

/-- The address of a request or reply, by its `ATYP`. -/
inductive BoundAddr : UInt8 → List UInt8 → Prop
  | ipv4 {addr : List UInt8} (h : addr.length = 4) : BoundAddr 1 addr
  | name {len : UInt8} {name : List UInt8} (h : name.length = len.toNat) :
    BoundAddr 3 (len :: name)
  | ipv6 {addr : List UInt8} (h : addr.length = 16) : BoundAddr 4 addr

/-- The value of an integer in network order. -/
def bigEndian (bs : List UInt8) : Nat := bs.foldl (fun n b => n * 256 + b.toNat) 0

def ntohl (bs : List UInt8) : UInt32 := UInt32.ofNat (bigEndian bs)

def ntohs (bs : List UInt8) : UInt16 := UInt16.ofNat (bigEndian bs)

def htons (n : UInt16) : List UInt8 := [UInt8.ofNat (n.toNat / 256), UInt8.ofNat (n.toNat % 256)]

/-- `struct socks5_cli`.  `user` and `passwd` are the strings in these arrays, and `clipeer` is left
out: only log messages use it. -/
structure Socks5Cli where
  request : Sockaddr
  user : List UInt8
  passwd : List UInt8
  clientfd : Int
  proxyfd : Int
  srvpeer : Sockaddr
  cmd : UInt8
  deriving DecidableEq, Repr

/-- The client of a new session: `memset` clears all of it, also the descriptor `proxyfd`. -/
def Socks5Cli.start (clientfd : Int) : Socks5Cli where
  request := .zeroed
  user := []
  passwd := []
  clientfd := clientfd
  proxyfd := 0
  srvpeer := .zeroed
  cmd := 0

@[simp] theorem Socks5Cli.clientfd_start (fd : Int) : (Socks5Cli.start fd).clientfd = fd := rfl

/-! ### Calls -/

/-- The functions whose start and end the calls of a session note. -/
inductive Fn
  | choosemethod
  | readauth
  | stripRedirectaddr
  | doauth
  | readrequest
  | connectproxy
  deriving DecidableEq, Repr

/-- The calls of a session.  `enter` and `leave` stand for no call of the source: they note when a
function starts, and with which status it ends.  `fault` is a step that C leaves undefined. -/
inductive Call
  | getpeername (fd : Int)
  | getsockname (fd : Int)
  | readn (fd : Int) (n : Nat)
  | writen (fd : Int) (data : List UInt8)
  | socket
  | connectNonb (fd : Int) (peer : Sockaddr)
  | negotiate (clientfd proxyfd : Int)
  | close (fd : Int)
  | cacheGetapp (app : List UInt8)
  | cachePutapp (app passwd : List UInt8)
  | sqlgetApppasswd (appuser : List UInt8)
  | cacheGetip (key : UInt32)
  | cachePutip (key : UInt32) (creds : Creds)
  | sqlgetProxycreds (ip : UInt32) (port : UInt16) (status : Nat)
  | hashtblGet (key : List UInt8)
  | hashtblPut (key val : List UInt8) (expires : Int)
  | hostServ (host : List UInt8)
  | time
  | enter (f : Fn)
  | leave (f : Fn) (status : Int)
  | fault
  deriving DecidableEq, Repr

/-- What a call returns.  `none` and `false` stand for its failure, and for a read or write of fewer
bytes than asked for. -/
@[reducible] def Call.Result : Call → Type
  | getpeername _ => Bool
  | getsockname _ => Option Sockaddr
  | readn _ n => Option (Bytes n)
  | writen _ _ => Bool
  | socket => Int
  | connectNonb _ _ => Bool
  | negotiate _ _ => Int
  | close _ => Unit
  | cacheGetapp _ => Option (List UInt8)
  | cachePutapp _ _ => Unit
  | sqlgetApppasswd _ => Option (List UInt8)
  | cacheGetip _ => Option Creds
  | cachePutip _ _ => Unit
  | sqlgetProxycreds _ _ _ => Option Creds
  -- the clock that the call reads, and the bytes that it copies when it returns 1
  | hashtblGet _ => Int × Option (List UInt8)
  | hashtblPut _ _ _ => Int
  -- the IPv4 address of the first `struct addrinfo`
  | hostServ _ => Option (Bytes 4)
  | time => Int
  | enter _ => Unit
  | leave _ _ => Unit
  | fault => Empty

theorem Call.result_nonempty {c : Call} (h : c ≠ .fault) : Nonempty c.Result := by
  cases c <;> first | exact absurd rfl h | exact ⟨default⟩

abbrev Session := Prog Call.Result

abbrev SessionEvent := Event Call.Result

/-- A byte that arrives at `fd`. -/
def byteEvent (fd : Int) (c : UInt8) : SessionEvent := ⟨.readn fd 1, some (Bytes.ofByte c)⟩

/-- All of `bs` arrives at `fd` for one `readn_timeo`. -/
def chunkEvent (fd : Int) (bs : List UInt8) : SessionEvent :=
  ⟨.readn fd bs.length, some (Bytes.ofList bs)⟩

theorem chunkEvent_eq {fd : Int} {n : Nat} (bs : Bytes n) :
    (⟨.readn fd n, some bs⟩ : SessionEvent) = chunkEvent fd bs.val := by
  obtain ⟨bs, rfl⟩ := bs
  rfl

theorem byteEvent_chunk (fd : Int) (c : UInt8) : byteEvent fd c = chunkEvent fd [c] := rfl

theorem byteEvent_eq {fd : Int} (b : Bytes 1) :
    (⟨.readn fd 1, some b⟩ : SessionEvent) = byteEvent fd b.byte := by
  rw [byteEvent, Bytes.ofByte_byte]

/-- The program that makes one call. -/
def call (c : Call) : Session c.Result := .call c .done

/-- The end of a session at a step that C leaves undefined. -/
def fault {α : Type} : Session α := .call .fault Empty.elim

/-- `readn_timeo` of one byte. -/
def readByte (fd : Int) : Session (Option UInt8) :=
  .call (.readn fd 1) fun r => .done (r.map Bytes.byte)

/-- `readn_timeo` of `n` bytes into an array of `room`, which lacks at most one byte.  What arrives
is stored, so all of it may arrive only where there is room. -/
def readInto (fd : Int) (room n : Nat) : Session (Option (Bytes n)) :=
  .call (.readn fd n) fun r => if r.isSome && room < n then fault else .done r

/-- Where there is room, a read stores what arrives. -/
theorem readInto_of_le {fd : Int} {room n : Nat} (h : n ≤ room) :
    readInto fd room n = .call (.readn fd n) .done := by
  simp [readInto, Nat.not_lt.mpr h]

theorem readInto_byte {fd : Int} (n : UInt8) :
    readInto fd 256 n.toNat = .call (.readn fd n.toNat) .done :=
  readInto_of_le (Nat.le_of_lt n.toNat_lt)

/-- `writen_timeo`, and whether it wrote all of `data`. -/
def writen (fd : Int) (data : List UInt8) : Session Bool := .call (.writen fd data) .done

/-- Note the start of a function, and its end with the status that it returns. -/
def noted {α : Type} (f : Fn) (status : α → Int) (p : Session α) : Session α := do
  call (.enter f)
  let a ← p
  call (.leave f (status a))
  return a

theorem noted_eq {α : Type} (f : Fn) (status : α → Int) (p : Session α) :
    noted f status p = .call (.enter f) fun _ =>
      p >>= fun a => .call (.leave f (status a)) fun _ => .done a := rfl

@[simp] theorem fault_bind {α β : Type} (f : α → Session β) : fault >>= f = fault :=
  congrArg (Prog.call Call.fault) (funext fun r => r.elim)

end Silksocks
