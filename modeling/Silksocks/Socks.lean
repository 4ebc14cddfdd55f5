import Silksocks.Session

/-! The functions of `socks.c`, in the build with `USEDB`.  A function that changes its client
returns the changed one next to its status. -/

namespace Silksocks

open Program

/-- `NEEDAUTH`. -/
def needauth : Bool := true

/-- `DNS_TTL`. -/
def dnsTtl : Int := 300

/-! ### Strings of the C library -/

def dash : UInt8 := 45

/-- `strtok_r` with the delimiter `-`: the next token of a string, and what comes behind it. -/
def strtok (s : List UInt8) : Option (List UInt8 × List UInt8) :=
  match s.dropWhile (· = dash) with
  | [] => none
  | c :: cs => some ((c :: cs).takeWhile (· ≠ dash), ((c :: cs).dropWhile (· ≠ dash)).drop 1)

/-- The value of a decimal digit. -/
def digit? (c : UInt8) : Option Nat := if 48 ≤ c ∧ c ≤ 57 then some (c.toNat - 48) else none

/-- The loop of `inet_pton` over the rest of a string, with the octets before the current one and
the current one, if it has a digit. -/
def inetPtonLoop : List UInt8 → (octets : List UInt8) → (current : Option Nat) →
    Option (List UInt8)
  | [], octets, some n => if octets.length = 3 then some (octets ++ [UInt8.ofNat n]) else none
  | [], _, none => none
  | c :: cs, octets, current =>
    match digit? c, current with
    | some d, none => inetPtonLoop cs octets (some d)
    | some d, some n =>
      -- no digit may follow a leading zero
      if n = 0 ∨ 255 < n * 10 + d then none else inetPtonLoop cs octets (some (n * 10 + d))
    | none, some n =>
      if c = 46 ∧ octets.length < 3 then inetPtonLoop cs (octets ++ [UInt8.ofNat n]) none else none
    | none, none => none

/-- `inet_pton(AF_INET, ..)`: the four bytes of an address in dotted decimal. -/
def inetPton (s : List UInt8) : Option (List UInt8) := inetPtonLoop s [] none

def isspace (c : UInt8) : Bool := c = 32 || (9 ≤ c && c ≤ 13)

/-- `strtol(.., 10)` of a string that is too short to overflow: the value, and what comes behind
it. -/
def strtol (s : List UInt8) : Int × List UInt8 :=
  let body := s.dropWhile isspace
  let (negative, body) := match body with
    | 45 :: cs => (true, cs)
    | 43 :: cs => (false, cs)
    | cs => (false, cs)
  let digits := body.takeWhile fun c => (digit? c).isSome
  if digits = [] then (0, s)
  else
    let n : Int := digits.foldl (fun n c => n * 10 + (digit? c).getD 0) 0
    (if negative then -n else n, body.dropWhile fun c => (digit? c).isSome)

/-! ### The client's side -/

/-- `strip_redirectaddr`: the login is user-ip-port.  `strtok_r` cuts `client->user` behind its
first token, and leaves the delimiters in front of it in place. -/
def stripRedirectaddr (client : Socks5Cli) : Int × Socks5Cli :=
  let client := { client with srvpeer.family := .inet }
  match strtok client.user with
  | none => (1, client)
  | some (user, rest) =>
    let client := { client with user := client.user.takeWhile (· = dash) ++ user }
    match strtok rest with
    | none => (1, client)
    | some (ip, rest) =>
      let ipbuf := ip.take 15
      match strtok rest with
      | none => (1, client)
      | some (port, _) =>
        let portbuf := port.take 5
        match inetPton ipbuf with
        | none => (1, client)
        | some addr =>
          let (n, ptr) := strtol portbuf
          let client :=
            { client with srvpeer.addr := addr, srvpeer.port := htons (UInt16.ofInt n) }
          if ptr ≠ [] then (1, client) else (0, client)

/-- The loop of `socks5_choosemethod` over the methods: a status, and the method chosen so far. -/
def readMethods (clientfd : Int) : Nat → UInt8 → Session (Int × UInt8)
  | 0, climethod => pure (0, climethod)
  | b + 1, climethod => do
    let some a ← readByte clientfd | return (1, climethod)
    readMethods clientfd b (if a = 0x02 && needauth then 0x02 else climethod)

/-- `socks5_choosemethod`: a status, and `*climethod`. -/
def socks5Choosemethod (client : Socks5Cli) : Session (Int × UInt8) := do
  let some b ← readByte client.clientfd | return (1, 0)
  if b ≠ 0x05 then return (1, 0) else
  let some b ← readByte client.clientfd | return (1, 0)
  let (status, climethod) ← readMethods client.clientfd b.toNat 0
  if status ≠ 0 then return (status, climethod) else
  let climethod := if needauth && climethod = 0 then 0xFF else climethod
  if !(← writen client.clientfd [0x05, climethod]) then return (1, climethod) else
  return (0, climethod)

/-- `socks5_readauth`.  The arrays for the strings have room for every length byte. -/
def socks5Readauth (client : Socks5Cli) : Session (Int × Socks5Cli) := do
  let some b ← readByte client.clientfd | return (1, client)
  if b ≠ 0x01 then return (1, client) else
  let some b ← readByte client.clientfd | return (1, client)
  let some user ← readInto client.clientfd 256 b.toNat | return (1, client)
  let client := { client with user := cstr user.val }
  let some b ← readByte client.clientfd | return (1, client)
  let some passwd ← readInto client.clientfd 256 b.toNat | return (1, client)
  let client := { client with passwd := cstr passwd.val }
  if !(← writen client.clientfd [1, 0]) then return (1, client) else
  return (0, client)

/-- `socks5_doauth`. -/
def socks5Doauth (client : Socks5Cli) : Session Int := do
  match ← call (.cacheGetapp client.user) with
  | some apppasswd => return if client.passwd = apppasswd then 0 else 5
  | none =>
    let some apppasswd ← call (.sqlgetApppasswd client.user) | return 5
    call (.cachePutapp client.user apppasswd)
    return if client.passwd = apppasswd then 0 else 5

/-- The address of a domain name: from `dns_table`, or from the resolver, whose answer also goes
into the table.  `request` is the address that is overwritten. -/
def resolve (request : Sockaddr) (host : List UInt8) : Session (Option Sockaddr) := do
  match ← call (.hashtblGet host) with
  | (_, some addr) => return some { request with family := .inet, addr }
  | (_, none) =>
    let some addr ← call (.hostServ host) | return none
    let now ← call .time
    let _ ← call (.hashtblPut host addr.val (now + dnsTtl))
    return some ⟨.inet, addr.val, [0, 0]⟩

/-- `socks5_readrequest`. -/
def socks5Readrequest (client : Socks5Cli) : Session (Int × Socks5Cli) := do
  let some b ← readByte client.clientfd | return (1, client)
  if b ≠ 0x05 then return (1, client) else
  let some b ← readByte client.clientfd | return (1, client)
  if b < 0x01 ∨ 0x03 < b then return (7, client) else
  let client := { client with cmd := b }
  let some _ ← readByte client.clientfd | return (1, client)
  let some b ← readByte client.clientfd | return (1, client)
  match b with
  | 0x01 =>
    let some addr ← readInto client.clientfd 256 4 | return (1, client)
    let client := { client with request.family := .inet, request.addr := addr.val }
    let some port ← readInto client.clientfd 256 2 | return (1, client)
    return (0, { client with request.port := port.val })
  | 0x03 =>
    let some b ← readByte client.clientfd | return (1, client)
    let some name ← readInto client.clientfd 256 b.toNat | return (1, client)
    let some request ← resolve client.request (cstr name.val)
      | return (4, { client with request.family := .inet })
    let client := { client with request }
    let some port ← readInto client.clientfd 256 2 | return (1, client)
    return (0, { client with request.port := port.val })
  | 0x04 =>
    let some addr ← readInto client.clientfd 256 16 | return (1, client)
    let client := { client with request.family := .inet6, request.addr := addr.val }
    let some port ← readInto client.clientfd 256 2 | return (1, client)
    return (0, { client with request.port := port.val })
  | _ => return (8, client)

/-- `socks5_writereply`; the status is truncated to a byte. -/
def socks5Writereply (client : Socks5Cli) (status : Int) : Session Int := do
  let some ss ← call (.getsockname client.proxyfd) | return 1
  let data := [0x05, UInt8.ofInt status, 0, if ss.family = .inet then 1 else 4] ++
    ss.addr.take ss.addrLen ++ ss.port
  if !(← writen client.clientfd data) then return 1 else
  return 0

/-! ### The upstream proxy's side -/

/-- `socks5_writerequest`. -/
def socks5Writerequest (client : Socks5Cli) : Session Int := do
  let request := client.request
  let data := [0x05, 0x01, 0x00, if request.family = .inet then 1 else 4] ++
    request.addr.take request.addrLen ++ request.port
  if !(← writen client.proxyfd data) then return 4 else
  return 0

/-- `socks5_readreply`. -/
def socks5Readreply (client : Socks5Cli) : Session Int := do
  let some buf ← readInto client.proxyfd 256 4 | return 4
  match buf.val with
  | [ver, rep, _, atyp] =>
    if ver ≠ 0x05 ∨ rep ≠ 0x00 then return rep.toNat else
    match atyp with
    | 0x01 =>
      let some _ ← readInto client.proxyfd 256 6 | return 2
      return 0
    | 0x03 =>
      let some b ← readByte client.proxyfd | return 2
      let some _ ← readInto client.proxyfd 256 (b.toNat + 2) | return 2
      return 0
    | 0x04 =>
      let some _ ← readInto client.proxyfd 256 18 | return 2
      return 0
    | _ => return 8
  | _ => return 4

/-- The value of a `char`, which is signed. -/
def schar (b : UInt8) : Int := if b < 128 then b.toNat else b.toNat - 256

/-- The authentication message for an upstream proxy.  The lengths are stored in `char`s and read
back as the sizes for `memcpy`, which are out of range when the `char` is negative. -/
def authMessage (creds : Creds) : Option (List UInt8) :=
  let ulen := UInt8.ofNat creds.user.length
  let plen := UInt8.ofNat creds.passwd.length
  if schar ulen < 0 ∨ schar plen < 0 then none
  else some ([0x01, ulen] ++ creds.user.take ulen.toNat ++ [plen] ++ creds.passwd.take plen.toNat)

/-- The credentials for an upstream proxy, from `cacheip` or the database. -/
def proxyCreds (proxyip : UInt32) (proxyport : UInt16) : Session (Option Creds) := do
  match ← call (.cacheGetip proxyip) with
  | some creds => return some creds
  | none =>
    let some creds ← call (.sqlgetProxycreds proxyip proxyport 1) | return none
    call (.cachePutip proxyip creds)
    return some creds

/-- `socks5_connectproxy`. -/
def socks5Connectproxy (client : Socks5Cli) : Session (Int × Socks5Cli) := do
  let proxyip := ntohl client.srvpeer.addr
  let proxyport := ntohs client.srvpeer.port
  let proxyfd ← call .socket
  let client := { client with proxyfd }
  if proxyfd = -1 then return (1, client) else
  if !(← call (.connectNonb proxyfd client.srvpeer)) then return (4, client) else
  if !(← writen proxyfd [0x05, 1, 0x02]) then return (4, client) else
  let some buf ← readInto proxyfd 512 2 | return (4, client)
  if buf.val ≠ [5, 0x02] then return (4, client) else
  let some creds ← proxyCreds proxyip proxyport | return (4, client)
  let some data := authMessage creds | fault
  if !(← writen proxyfd data) then return (4, client) else
  let some buf ← readInto proxyfd 512 2 | return (4, client)
  if buf.val ≠ [0x01, 0x00] then return (5, client) else
  let status ← socks5Writerequest client
  if status ≠ 0 then return (status, client) else
  let status ← socks5Readreply client
  return (status, client)

/-! ### A session -/

/-- The authentication of `socks5_run`, with the method that `socks5_choosemethod` selected. -/
def authenticate (client : Socks5Cli) (method : UInt8) : Session (Int × Socks5Cli) := do
  if method = 0x02 then
    let (status, client) ← noted .readauth Prod.fst (socks5Readauth client)
    if status ≠ 0 then return (status, client) else
    let (status, client) ← noted .stripRedirectaddr Prod.fst (pure (stripRedirectaddr client))
    if status ≠ 0 then return (status, client) else
    let status ← noted .doauth id (socks5Doauth client)
    return (status, client)
  else if method ≠ 0 ∧ method ≠ 0xFF then return (7, client)
  else return (0, client)

/-- The `switch` of `socks5_run` over the command of the request. -/
def serveRequest (client : Socks5Cli) : Session (Int × Socks5Cli) := do
  match client.cmd with
  | 0x01 =>
    let (status, client) ← noted .connectproxy Prod.fst (socks5Connectproxy client)
    if status ≠ 0 then
      let _ ← socks5Writereply client status
      return (status, client)
    else
    let status ← socks5Writereply client status
    if status ≠ 0 then return (status, client) else
    let status ← call (.negotiate client.clientfd client.proxyfd)
    return (status, client)
  | _ => return (7, client)

/-- `socks5_run` up to its label `done`.  The status is `none` where the source returns it
uninitialised. -/
def serve (client : Socks5Cli) : Session (Option Int × Socks5Cli) := do
  if !(← call (.getpeername client.clientfd)) then return (none, client) else
  let (status, method) ← noted .choosemethod Prod.fst (socks5Choosemethod client)
  if status ≠ 0 then return (some status, client) else
  let (status, client) ← authenticate client method
  if status ≠ 0 then return (some status, client) else
  let (status, client) ← noted .readrequest Prod.fst (socks5Readrequest client)
  if status ≠ 0 then return (some status, client) else
  let (status, client) ← serveRequest client
  return (some status, client)

/-- `socks5_run`. -/
def socks5Run (clientfd : Int) : Session (Option Int) := do
  let (status, client) ← serve (.start clientfd)
  call (.close client.clientfd)
  call (.close client.proxyfd)
  return status

end Silksocks
