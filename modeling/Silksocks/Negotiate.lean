import Silksocks.Lib.StreamBuffer

/-! The relay of `negotiate.c`, in the build that uses `poll`.  The loop of `negotiate` is a state
machine: its state holds the variables of the function and the section it is about to execute, and
one step executes one section, with the result of the system call that the section makes.

The buffers `to` and `fr` of the function are `StreamBuffer`s, whose pointers are offsets into the
array. -/

namespace Silksocks

open StreamBuffer

/-- `BUFSIZE`. -/
def bufsize : Nat := 2 ^ 20

/-! ### System calls -/

/-- The values of `errno` that `negotiate` tells apart. -/
inductive Errno
  | eagain
  | eintr
  | other
  deriving DecidableEq, Repr

structure Events where
  pollin : Bool
  pollout : Bool
  deriving DecidableEq, Repr

structure Revents where
  pollin : Bool
  pollout : Bool
  pollerr : Bool
  pollhup : Bool
  pollnval : Bool
  deriving DecidableEq, Repr

/-- `struct pollfd`, without its descriptor. -/
structure Pollfd where
  events : Events
  revents : Revents
  deriving DecidableEq, Repr

/-- The two sockets. -/
inductive Peer
  | client
  | proxy
  deriving DecidableEq, Repr

/-- The result of `poll` on the client's and the proxy's socket. -/
inductive PollResult
  | error (e : Errno)
  | timeout
  | ready (client proxy : Revents)
  deriving DecidableEq, Repr

/-- The calls of `negotiate` with their results.  `off` and `len` are the range of the buffer that a
read or a write names; the bytes are those read, or those of the buffer that were written. -/
inductive RelayCall
  | poll (client proxy : Events) (r : PollResult)
  | read (fd : Peer) (off len : Nat) (r : Except Errno (List UInt8))
  | write (fd : Peer) (off len : Nat) (r : Except Errno (List UInt8))
  | shutdown

/-- What the next system call returns, whichever it is. -/
structure Answer where
  poll : PollResult
  read : Except Errno (List UInt8)
  write : Except Errno Nat

/-! ### The state machine -/

/-- The section that comes next. -/
inductive Section
  | poll
  | readClient
  | readProxy
  | writeClient
  | writeProxy
  | done (status : Int)
  deriving DecidableEq, Repr

/-- How many sections of a round are left at most. -/
@[simp] def Section.left : Section → Nat
  | readClient => 4
  | readProxy => 3
  | writeClient => 2
  | writeProxy => 1
  | poll | done _ => 0

theorem Section.left_eq_zero {pc : Section} :
    pc.left = 0 ↔ pc = .poll ∨ ∃ status, pc = .done status := by
  cases pc <;> simp

theorem Section.left_le (pc : Section) : pc.left ≤ 4 := by cases pc <;> simp

/-- The variables of `negotiate`; `client` is `pfds[0]` and `proxy` is `pfds[1]`. -/
structure Relay where
  clienteof : Bool
  toBuf : Buf UInt8
  frBuf : Buf UInt8
  client : Pollfd
  proxy : Pollfd
  pc : Section

namespace Relay

/-- The first statements of the loop: which events to wait for. -/
def selectEvents (s : Relay) : Relay :=
  { s with
    client.events :=
      { pollin := s.clienteof = false && s.toBuf.iptr < bufsize
        pollout := s.frBuf.optr ≠ s.frBuf.iptr }
    proxy.events :=
      { pollin := s.frBuf.iptr < bufsize
        pollout := s.toBuf.optr ≠ s.toBuf.iptr } }

/-- What follows the failure of a call: `continue`, or the end of the relay. -/
def retry (s : Relay) (e : Errno) : Relay :=
  { s with pc := if e = .other then .done 1 else .poll }

def poll (s : Relay) (r : PollResult) : Relay × List RelayCall :=
  let s := s.selectEvents
  let call := RelayCall.poll s.client.events s.proxy.events r
  match r with
  | .error e => (s.retry e, [call])
  | .timeout => ({ s with pc := .done 6 }, [call])
  | .ready client proxy =>
    ({ s with client.revents := client, proxy.revents := proxy, pc := .readClient }, [call])

/-- Read from the client's socket.  A read of `len` bytes returns at most `len` of them. -/
def readClient (s : Relay) (r : Except Errno (List UInt8)) : Relay × List RelayCall :=
  if s.client.revents.pollin then
    let len := bufsize - s.toBuf.iptr
    match r.map (List.take len) with
    | .error e => (s.retry e, [.read .client s.toBuf.iptr len (.error e)])
    | .ok [] =>
      ({ s with clienteof := true, pc := .readProxy },
        .read .client s.toBuf.iptr len (.ok []) ::
          if s.toBuf.optr = s.toBuf.iptr then [.shutdown] else [])
    | .ok data =>
      -- the events are set here, not the `revents` that the write below looks at
      ({ s with toBuf := s.toBuf.fill data, proxy.events.pollout := true, pc := .readProxy },
        [.read .client s.toBuf.iptr len (.ok data)])
  else ({ s with pc := .readProxy }, [])

/-- Read from the proxy's socket, whose end of file ends the relay. -/
def readProxy (s : Relay) (r : Except Errno (List UInt8)) : Relay × List RelayCall :=
  if s.proxy.revents.pollin then
    let len := bufsize - s.frBuf.iptr
    match r.map (List.take len) with
    | .error e => (s.retry e, [.read .proxy s.frBuf.iptr len (.error e)])
    | .ok [] =>
      ({ s with pc := .done (if s.clienteof then 0 else 1) },
        [.read .proxy s.frBuf.iptr len (.ok [])])
    | .ok data =>
      ({ s with frBuf := s.frBuf.fill data, client.events.pollout := true, pc := .writeClient },
        [.read .proxy s.frBuf.iptr len (.ok data)])
  else ({ s with pc := .writeClient }, [])

/-- Write to the client's socket.  A write of `n` bytes takes at most `n` of them. -/
def writeClient (s : Relay) (r : Except Errno Nat) : Relay × List RelayCall :=
  let n := s.frBuf.iptr - s.frBuf.optr
  if s.client.revents.pollout ∧ 0 < n then
    match r.map (min n) with
    | .error e => (s.retry e, [.write .client s.frBuf.optr n (.error e)])
    | .ok nwritten =>
      let frBuf := s.frBuf.drain nwritten
      ({ s with frBuf := if frBuf.optr = frBuf.iptr then frBuf.rewind else frBuf, pc := .writeProxy },
        [.write .client s.frBuf.optr n (.ok (s.frBuf.pending.take nwritten))])
  else ({ s with pc := .writeProxy }, [])

/-- Write to the proxy's socket, and shut it down behind the last byte of the client. -/
def writeProxy (s : Relay) (r : Except Errno Nat) : Relay × List RelayCall :=
  let n := s.toBuf.iptr - s.toBuf.optr
  if s.proxy.revents.pollout ∧ 0 < n then
    match r.map (min n) with
    | .error e => (s.retry e, [.write .proxy s.toBuf.optr n (.error e)])
    | .ok nwritten =>
      let toBuf := s.toBuf.drain nwritten
      let call := RelayCall.write .proxy s.toBuf.optr n (.ok (s.toBuf.pending.take nwritten))
      if toBuf.optr = toBuf.iptr then
        ({ s with toBuf := toBuf.rewind, pc := .poll },
          call :: if s.clienteof then [.shutdown] else [])
      else ({ s with toBuf, pc := .poll }, [call])
  else ({ s with pc := .poll }, [])

/-- One section of the loop. -/
def step (s : Relay) (a : Answer) : Relay × List RelayCall :=
  match s.pc with
  | .poll => s.poll a.poll
  | .readClient => s.readClient a.read
  | .readProxy => s.readProxy a.read
  | .writeClient => s.writeClient a.write
  | .writeProxy => s.writeProxy a.write
  | .done _ => (s, [])

end Relay

/-- What `negotiate` finds: whether the two sockets can be made nonblocking, and what the stack
holds where its buffers are. -/
structure Setup where
  clientNonblock : Bool
  proxyNonblock : Bool
  toMem : Nat → UInt8
  frMem : Nat → UInt8

/-- The state before the loop. -/
def negotiateInit (setup : Setup) : Relay where
  clienteof := false
  toBuf := .empty setup.toMem
  frBuf := .empty setup.frMem
  client := ⟨⟨false, false⟩, ⟨false, false, false, false, false⟩⟩
  proxy := ⟨⟨false, false⟩, ⟨false, false, false, false, false⟩⟩
  pc := if setup.clientNonblock && setup.proxyNonblock then .poll else .done 1

/-- `negotiate` up to some point of its run: the state there and the calls made so far. -/
def negotiate (setup : Setup) (answers : List Answer) : Relay × List RelayCall :=
  answers.foldl
    (fun (s, calls) a => ((s.step a).1, calls ++ (s.step a).2)) (negotiateInit setup, [])

theorem negotiate_snoc (setup : Setup) (answers : List Answer) (a : Answer) :
    negotiate setup (answers ++ [a]) =
      (((negotiate setup answers).1.step a).1,
        (negotiate setup answers).2 ++ ((negotiate setup answers).1.step a).2) := by
  simp [negotiate, List.foldl_append]

/-- What holds before the loop and is kept by every step holds at every point of every run. -/
theorem negotiate_induction {P : Relay → List RelayCall → Prop} (setup : Setup)
    (init : P (negotiateInit setup) [])
    (step : ∀ s calls a, P s calls → P (s.step a).1 (calls ++ (s.step a).2))
    (answers : List Answer) : P (negotiate setup answers).1 (negotiate setup answers).2 := by
  induction answers using List.reverseRecOn with
  | nil => exact init
  | append_singleton answers a ih =>
    rw [negotiate_snoc]
    exact step _ _ a ih

namespace Relay

/-! ### What a step can do -/

/-- The steps of the relay. -/
inductive Move (s : Relay) : Relay → List RelayCall → Prop
  | finished {status : Int} (hpc : s.pc = .done status) : Move s s []
  | pollFailed (hpc : s.pc = .poll) (e : Errno) :
      Move s (s.selectEvents.retry e)
        [.poll s.selectEvents.client.events s.selectEvents.proxy.events (.error e)]
  | pollTimeout (hpc : s.pc = .poll) :
      Move s { s.selectEvents with pc := .done 6 }
        [.poll s.selectEvents.client.events s.selectEvents.proxy.events .timeout]
  | polled (hpc : s.pc = .poll) (client proxy : Revents) :
      Move s
        { s.selectEvents with
          client.revents := client, proxy.revents := proxy, pc := .readClient }
        [.poll s.selectEvents.client.events s.selectEvents.proxy.events (.ready client proxy)]
  | noClientInput (hpc : s.pc = .readClient) (hin : s.client.revents.pollin = false) :
      Move s { s with pc := .readProxy } []
  | clientReadFailed (hpc : s.pc = .readClient) (hin : s.client.revents.pollin = true)
      (e : Errno) :
      Move s (s.retry e) [.read .client s.toBuf.iptr (bufsize - s.toBuf.iptr) (.error e)]
  | clientEof (hpc : s.pc = .readClient) (hin : s.client.revents.pollin = true) :
      Move s { s with clienteof := true, pc := .readProxy }
        (.read .client s.toBuf.iptr (bufsize - s.toBuf.iptr) (.ok []) ::
          if s.toBuf.optr = s.toBuf.iptr then [.shutdown] else [])
  | clientRead (hpc : s.pc = .readClient) (hin : s.client.revents.pollin = true)
      {data : List UInt8} (hdata : data ≠ []) (hlen : data.length ≤ bufsize - s.toBuf.iptr) :
      Move s { s with toBuf := s.toBuf.fill data, proxy.events.pollout := true, pc := .readProxy }
        [.read .client s.toBuf.iptr (bufsize - s.toBuf.iptr) (.ok data)]
  | noProxyInput (hpc : s.pc = .readProxy) (hin : s.proxy.revents.pollin = false) :
      Move s { s with pc := .writeClient } []
  | proxyReadFailed (hpc : s.pc = .readProxy) (hin : s.proxy.revents.pollin = true)
      (e : Errno) :
      Move s (s.retry e) [.read .proxy s.frBuf.iptr (bufsize - s.frBuf.iptr) (.error e)]
  | proxyEof (hpc : s.pc = .readProxy) (hin : s.proxy.revents.pollin = true) :
      Move s { s with pc := .done (if s.clienteof then 0 else 1) }
        [.read .proxy s.frBuf.iptr (bufsize - s.frBuf.iptr) (.ok [])]
  | proxyRead (hpc : s.pc = .readProxy) (hin : s.proxy.revents.pollin = true)
      {data : List UInt8} (hdata : data ≠ []) (hlen : data.length ≤ bufsize - s.frBuf.iptr) :
      Move s { s with frBuf := s.frBuf.fill data, client.events.pollout := true, pc := .writeClient }
        [.read .proxy s.frBuf.iptr (bufsize - s.frBuf.iptr) (.ok data)]
  | noClientOutput (hpc : s.pc = .writeClient)
      (hout : s.client.revents.pollout = false ∨ s.frBuf.iptr ≤ s.frBuf.optr) :
      Move s { s with pc := .writeProxy } []
  | clientWriteFailed (hpc : s.pc = .writeClient) (hout : s.client.revents.pollout = true)
      (hn : s.frBuf.optr < s.frBuf.iptr) (e : Errno) :
      Move s (s.retry e) [.write .client s.frBuf.optr (s.frBuf.iptr - s.frBuf.optr) (.error e)]
  | clientWrite (hpc : s.pc = .writeClient) (hout : s.client.revents.pollout = true)
      (hn : s.frBuf.optr < s.frBuf.iptr) {n : Nat} (hle : n ≤ s.frBuf.iptr - s.frBuf.optr) :
      Move s
        { s with
          frBuf := if s.frBuf.optr + n = s.frBuf.iptr then s.frBuf.rewind else s.frBuf.drain n,
          pc := .writeProxy }
        [.write .client s.frBuf.optr (s.frBuf.iptr - s.frBuf.optr) (.ok (s.frBuf.pending.take n))]
  | noProxyOutput (hpc : s.pc = .writeProxy)
      (hout : s.proxy.revents.pollout = false ∨ s.toBuf.iptr ≤ s.toBuf.optr) :
      Move s { s with pc := .poll } []
  | proxyWriteFailed (hpc : s.pc = .writeProxy) (hout : s.proxy.revents.pollout = true)
      (hn : s.toBuf.optr < s.toBuf.iptr) (e : Errno) :
      Move s (s.retry e) [.write .proxy s.toBuf.optr (s.toBuf.iptr - s.toBuf.optr) (.error e)]
  | proxyWrite (hpc : s.pc = .writeProxy) (hout : s.proxy.revents.pollout = true)
      (hn : s.toBuf.optr < s.toBuf.iptr) {n : Nat} (hle : n ≤ s.toBuf.iptr - s.toBuf.optr) :
      Move s
        { s with
          toBuf := if s.toBuf.optr + n = s.toBuf.iptr then s.toBuf.rewind else s.toBuf.drain n
          pc := .poll }
        (.write .proxy s.toBuf.optr (s.toBuf.iptr - s.toBuf.optr) (.ok (s.toBuf.pending.take n)) ::
          if s.toBuf.optr + n = s.toBuf.iptr ∧ s.clienteof = true then [.shutdown] else [])

theorem poll_move {s : Relay} (hpc : s.pc = .poll) (r : PollResult) :
    s.Move (s.poll r).1 (s.poll r).2 := by
  cases r with
  | error e => exact .pollFailed hpc e
  | timeout => exact .pollTimeout hpc
  | ready client proxy => exact .polled hpc client proxy

theorem readClient_move {s : Relay} (hpc : s.pc = .readClient) (r : Except Errno (List UInt8)) :
    s.Move (s.readClient r).1 (s.readClient r).2 := by
  rw [readClient]
  cases hin : s.client.revents.pollin with
  | false => exact .noClientInput hpc hin
  | true =>
    rw [if_pos rfl]
    cases r with
    | error e => exact .clientReadFailed hpc hin e
    | ok data =>
      cases htake : data.take (bufsize - s.toBuf.iptr) with
      | nil => simpa only [Except.map, htake] using .clientEof hpc hin
      | cons c cs =>
        simp only [Except.map, htake]
        exact .clientRead hpc hin (by simp) (htake ▸ List.length_take_le _ _)

theorem readProxy_move {s : Relay} (hpc : s.pc = .readProxy) (r : Except Errno (List UInt8)) :
    s.Move (s.readProxy r).1 (s.readProxy r).2 := by
  rw [readProxy]
  cases hin : s.proxy.revents.pollin with
  | false => exact .noProxyInput hpc hin
  | true =>
    rw [if_pos rfl]
    cases r with
    | error e => exact .proxyReadFailed hpc hin e
    | ok data =>
      cases htake : data.take (bufsize - s.frBuf.iptr) with
      | nil => simpa only [Except.map, htake] using .proxyEof hpc hin
      | cons c cs =>
        simp only [Except.map, htake]
        exact .proxyRead hpc hin (by simp) (htake ▸ List.length_take_le _ _)

theorem writeClient_move {s : Relay} (hpc : s.pc = .writeClient) (r : Except Errno Nat) :
    s.Move (s.writeClient r).1 (s.writeClient r).2 := by
  rw [writeClient]
  by_cases h : s.client.revents.pollout = true ∧ 0 < s.frBuf.iptr - s.frBuf.optr
  · have hn : s.frBuf.optr < s.frBuf.iptr := by omega
    rw [if_pos h]
    cases r with
    | error e => exact .clientWriteFailed hpc h.1 hn e
    | ok n => exact .clientWrite hpc h.1 hn (Nat.min_le_left _ n)
  · rw [if_neg h]
    refine .noClientOutput hpc ((not_and_or.mp h).imp (fun hr => ?_) fun hn => ?_)
    · simpa using hr
    · omega

theorem writeProxy_move {s : Relay} (hpc : s.pc = .writeProxy) (r : Except Errno Nat) :
    s.Move (s.writeProxy r).1 (s.writeProxy r).2 := by
  rw [writeProxy]
  by_cases h : s.proxy.revents.pollout = true ∧ 0 < s.toBuf.iptr - s.toBuf.optr
  · have hn : s.toBuf.optr < s.toBuf.iptr := by omega
    rw [if_pos h]
    cases r with
    | error e => exact .proxyWriteFailed hpc h.1 hn e
    | ok n =>
      have hmove := Move.proxyWrite hpc h.1 hn (Nat.min_le_left (s.toBuf.iptr - s.toBuf.optr) n)
      simp only [Except.map]
      by_cases hall : s.toBuf.optr + min (s.toBuf.iptr - s.toBuf.optr) n = s.toBuf.iptr
      · rw [if_pos hall] at hmove
        simpa [Buf.drain, Buf.rewind, hall] using hmove
      · rw [if_neg hall] at hmove
        simpa [Buf.drain, hall] using hmove
  · rw [if_neg h]
    refine .noProxyOutput hpc ((not_and_or.mp h).imp (fun hr => ?_) fun hn => ?_)
    · simpa using hr
    · omega

theorem step_move (s : Relay) (a : Answer) : s.Move (s.step a).1 (s.step a).2 := by
  cases hpc : s.pc with
  | poll => simpa only [step, hpc] using poll_move hpc a.poll
  | readClient => simpa only [step, hpc] using readClient_move hpc a.read
  | readProxy => simpa only [step, hpc] using readProxy_move hpc a.read
  | writeClient => simpa only [step, hpc] using writeClient_move hpc a.write
  | writeProxy => simpa only [step, hpc] using writeProxy_move hpc a.write
  | done status => simpa only [step, hpc] using .finished hpc

end Relay

end Silksocks
