import Silksocks.Negotiate

/-! The relay of `negotiate.c`, in the build that uses `splice`.  The bytes of each direction go
through a pipe in the kernel, and `npipecli` and `npipesrv` count what is in the two pipes.  A
splice into a full pipe fails with `EAGAIN`, and `continue` after a failed splice skips the sections
that are left of the round: while the source of a full pipe stays readable, the pipe is not
drained. -/

namespace Silksocks

/-- The calls of `negotiate` with their results.  The bytes are those that a splice moved from a
socket into its pipe, or from a pipe to a socket. -/
inductive SpliceCall
  | poll (client proxy : Events) (r : PollResult)
  | fill (fd : Peer) (r : Except Errno (List UInt8))
  | drain (fd : Peer) (r : Except Errno (List UInt8))
  | shutdown

/-- An attempt to splice from a pipe to this socket. -/
def SpliceCall.drains (fd : Peer) : SpliceCall → Bool
  | .drain fd' _ => fd' = fd
  | _ => false

/-- What each system call returns if it is the next one; a round may make all of them. -/
structure SpliceAnswer where
  poll : PollResult
  readClient : Except Errno (List UInt8)
  readProxy : Except Errno (List UInt8)
  writeClient : Except Errno Nat
  writeProxy : Except Errno Nat

/-- The variables of `negotiate`, and the bytes in its pipes. -/
structure SpliceRelay where
  clienteof : Bool
  npipecli : Int
  npipesrv : Int
  pipecli : List UInt8
  pipesrv : List UInt8
  client : Pollfd
  proxy : Pollfd
  pc : Section

/-- A splice of at most `BUFSIZE` bytes from a socket into a pipe that holds at most `capacity`
bytes. -/
def spliceIn (capacity : Nat) (pipe : List UInt8) (r : Except Errno (List UInt8)) :
    Except Errno (List UInt8) :=
  if capacity ≤ pipe.length then .error .eagain
  else r.map (List.take (min bufsize (capacity - pipe.length)))

/-- A splice of at most `BUFSIZE` bytes from a pipe to a socket. -/
def spliceOut (pipe : List UInt8) (r : Except Errno Nat) : Except Errno (List UInt8) :=
  r.map fun n => pipe.take (min bufsize n)

namespace SpliceRelay

/-- The first statements of the loop: which events to wait for. -/
def selectEvents (s : SpliceRelay) : SpliceRelay :=
  { s with
    client.events :=
      { pollin := s.clienteof = false && s.npipecli < bufsize
        pollout := s.npipesrv ≠ 0 }
    proxy.events :=
      { pollin := s.npipesrv < bufsize
        pollout := s.npipecli ≠ 0 } }

/-- What follows the failure of a call: `continue`, or the end of the relay. -/
def retry (s : SpliceRelay) (e : Errno) : SpliceRelay :=
  { s with pc := if e = .other then .done 1 else .poll }

def poll (s : SpliceRelay) (r : PollResult) : SpliceRelay × List SpliceCall :=
  let s := s.selectEvents
  let call := SpliceCall.poll s.client.events s.proxy.events r
  match r with
  | .error e => (s.retry e, [call])
  | .timeout => ({ s with pc := .done 6 }, [call])
  | .ready client proxy =>
    ({ s with client.revents := client, proxy.revents := proxy, pc := .readClient }, [call])

/-- Splice from the client's socket. -/
def readClient (capacity : Nat) (s : SpliceRelay) (r : Except Errno (List UInt8)) :
    SpliceRelay × List SpliceCall :=
  if s.client.revents.pollin then
    match spliceIn capacity s.pipecli r with
    | .error e => (s.retry e, [.fill .client (.error e)])
    | .ok [] =>
      ({ s with clienteof := true, pc := .readProxy },
        .fill .client (.ok []) :: if s.npipecli = 0 then [.shutdown] else [])
    | .ok data =>
      ({ s with
          pipecli := s.pipecli ++ data
          npipecli := s.npipecli + data.length
          proxy.events.pollout := true
          pc := .readProxy },
        [.fill .client (.ok data)])
  else ({ s with pc := .readProxy }, [])

/-- Splice from the proxy's socket, whose end of file ends the relay. -/
def readProxy (capacity : Nat) (s : SpliceRelay) (r : Except Errno (List UInt8)) :
    SpliceRelay × List SpliceCall :=
  if s.proxy.revents.pollin then
    match spliceIn capacity s.pipesrv r with
    | .error e => (s.retry e, [.fill .proxy (.error e)])
    | .ok [] => ({ s with pc := .done (if s.clienteof then 0 else 1) }, [.fill .proxy (.ok [])])
    | .ok data =>
      ({ s with
          pipesrv := s.pipesrv ++ data
          npipesrv := s.npipesrv + data.length
          client.events.pollout := true
          pc := .writeClient },
        [.fill .proxy (.ok data)])
  else ({ s with pc := .writeClient }, [])

/-- Splice to the client's socket. -/
def writeClient (s : SpliceRelay) (r : Except Errno Nat) : SpliceRelay × List SpliceCall :=
  if s.client.revents.pollout ∧ 0 < s.npipesrv then
    match spliceOut s.pipesrv r with
    | .error e => (s.retry e, [.drain .client (.error e)])
    | .ok data =>
      ({ s with
          pipesrv := s.pipesrv.drop data.length
          npipesrv := s.npipesrv - data.length
          pc := .writeProxy },
        [.drain .client (.ok data)])
  else ({ s with pc := .writeProxy }, [])

/-- Splice to the proxy's socket, and shut it down behind the last byte of the client. -/
def writeProxy (s : SpliceRelay) (r : Except Errno Nat) : SpliceRelay × List SpliceCall :=
  if s.proxy.revents.pollout ∧ 0 < s.npipecli then
    match spliceOut s.pipecli r with
    | .error e => (s.retry e, [.drain .proxy (.error e)])
    | .ok data =>
      ({ s with
          pipecli := s.pipecli.drop data.length
          npipecli := s.npipecli - data.length
          pc := .poll },
        .drain .proxy (.ok data) ::
          if s.npipecli - data.length = 0 ∧ s.clienteof = true then [.shutdown] else [])
  else ({ s with pc := .poll }, [])

/-- One section of the loop. -/
def step (capacity : Nat) (s : SpliceRelay) (a : SpliceAnswer) : SpliceRelay × List SpliceCall :=
  match s.pc with
  | .poll => s.poll a.poll
  | .readClient => s.readClient capacity a.readClient
  | .readProxy => s.readProxy capacity a.readProxy
  | .writeClient => s.writeClient a.writeClient
  | .writeProxy => s.writeProxy a.writeProxy
  | .done _ => (s, [])

end SpliceRelay

/-- What `negotiate` finds: whether the two sockets can be made nonblocking, and its pipes made. -/
structure SpliceSetup where
  clientNonblock : Bool
  proxyNonblock : Bool
  pipesrv : Bool
  pipecli : Bool

/-- The state before the loop. -/
def spliceInit (setup : SpliceSetup) : SpliceRelay where
  clienteof := false
  npipecli := 0
  npipesrv := 0
  pipecli := []
  pipesrv := []
  client := ⟨⟨false, false⟩, ⟨false, false, false, false, false⟩⟩
  proxy := ⟨⟨false, false⟩, ⟨false, false, false, false, false⟩⟩
  pc :=
    if setup.clientNonblock && setup.proxyNonblock && setup.pipesrv && setup.pipecli then .poll
    else .done 1

/-- `negotiate` up to some point of its run: the state there and the calls made so far. -/
def negotiateSplice (capacity : Nat) (setup : SpliceSetup) (answers : List SpliceAnswer) :
    SpliceRelay × List SpliceCall :=
  answers.foldl
    (fun (s, calls) a => ((s.step capacity a).1, calls ++ (s.step capacity a).2))
    (spliceInit setup, [])

namespace SpliceRelay

/-! ### The counters -/

/-- The counters are those of the bytes in the pipes, of which neither holds more than it can. -/
structure Counted (capacity : Nat) (s : SpliceRelay) : Prop where
  npipecli : s.npipecli = s.pipecli.length
  npipesrv : s.npipesrv = s.pipesrv.length
  pipecli : s.pipecli.length ≤ capacity
  pipesrv : s.pipesrv.length ≤ capacity

variable {capacity : Nat} {s : SpliceRelay}

/-- A splice into a pipe keeps its count, and does not overfill it. -/
theorem count_spliceIn {n : Int} {pipe data : List UInt8} {r : Except Errno (List UInt8)}
    (hcount : n = pipe.length) (h : spliceIn capacity pipe r = .ok data) :
    n + data.length = ((pipe ++ data).length : Nat) ∧ (pipe ++ data).length ≤ capacity := by
  rw [List.length_append]
  refine ⟨by omega, ?_⟩
  rw [spliceIn] at h
  split at h
  · cases h
  · cases r with
    | error e => cases h
    | ok bytes =>
      cases h
      rw [List.length_take]
      omega

/-- A splice out of a pipe keeps its count. -/
theorem count_spliceOut {n : Int} {pipe data : List UInt8} {r : Except Errno Nat}
    (hcount : n = pipe.length) (hle : pipe.length ≤ capacity) (h : spliceOut pipe r = .ok data) :
    n - data.length = ((pipe.drop data.length).length : Nat) ∧
      (pipe.drop data.length).length ≤ capacity := by
  cases r with
  | error e => cases h
  | ok m =>
    cases h
    rw [List.length_drop, List.length_take]
    omega

theorem Counted.with_pc (h : s.Counted capacity) (pc : Section) :
    Counted capacity { s with pc } := ⟨h.npipecli, h.npipesrv, h.pipecli, h.pipesrv⟩

theorem Counted.poll (h : s.Counted capacity) (r : PollResult) : (s.poll r).1.Counted capacity := by
  cases r <;> exact ⟨h.npipecli, h.npipesrv, h.pipecli, h.pipesrv⟩

theorem Counted.readClient (h : s.Counted capacity) (r : Except Errno (List UInt8)) :
    (s.readClient capacity r).1.Counted capacity := by
  rw [SpliceRelay.readClient]
  split
  · split
    · exact h.with_pc _
    · exact ⟨h.npipecli, h.npipesrv, h.pipecli, h.pipesrv⟩
    · rename_i data _ hdata
      obtain ⟨hcount, hle⟩ := count_spliceIn h.npipecli hdata
      exact ⟨hcount, h.npipesrv, hle, h.pipesrv⟩
  · exact h.with_pc _

theorem Counted.readProxy (h : s.Counted capacity) (r : Except Errno (List UInt8)) :
    (s.readProxy capacity r).1.Counted capacity := by
  rw [SpliceRelay.readProxy]
  split
  · split
    · exact h.with_pc _
    · exact h.with_pc _
    · rename_i data _ hdata
      obtain ⟨hcount, hle⟩ := count_spliceIn h.npipesrv hdata
      exact ⟨h.npipecli, hcount, h.pipecli, hle⟩
  · exact h.with_pc _

theorem Counted.writeClient (h : s.Counted capacity) (r : Except Errno Nat) :
    (s.writeClient r).1.Counted capacity := by
  rw [SpliceRelay.writeClient]
  split
  · split
    · exact h.with_pc _
    · rename_i data hdata
      obtain ⟨hcount, hle⟩ := count_spliceOut h.npipesrv h.pipesrv hdata
      exact ⟨h.npipecli, hcount, h.pipecli, hle⟩
  · exact h.with_pc _

theorem Counted.writeProxy (h : s.Counted capacity) (r : Except Errno Nat) :
    (s.writeProxy r).1.Counted capacity := by
  rw [SpliceRelay.writeProxy]
  split
  · split
    · exact h.with_pc _
    · rename_i data hdata
      obtain ⟨hcount, hle⟩ := count_spliceOut h.npipecli h.pipecli hdata
      exact ⟨hcount, h.npipesrv, hle, h.pipesrv⟩
  · exact h.with_pc _

theorem Counted.step (h : s.Counted capacity) (a : SpliceAnswer) :
    (s.step capacity a).1.Counted capacity := by
  rw [SpliceRelay.step]
  cases s.pc with
  | poll => exact h.poll a.poll
  | readClient => exact h.readClient a.readClient
  | readProxy => exact h.readProxy a.readProxy
  | writeClient => exact h.writeClient a.writeClient
  | writeProxy => exact h.writeProxy a.writeProxy
  | done status => exact h

end SpliceRelay

theorem negotiateSplice_snoc (capacity : Nat) (setup : SpliceSetup) (answers : List SpliceAnswer)
    (a : SpliceAnswer) :
    negotiateSplice capacity setup (answers ++ [a]) =
      (((negotiateSplice capacity setup answers).1.step capacity a).1,
        (negotiateSplice capacity setup answers).2 ++
          ((negotiateSplice capacity setup answers).1.step capacity a).2) := by
  simp [negotiateSplice, List.foldl_append]

/-- At every point of every run the counters are right. -/
theorem negotiateSplice_counted (capacity : Nat) (setup : SpliceSetup)
    (answers : List SpliceAnswer) :
    (negotiateSplice capacity setup answers).1.Counted capacity := by
  induction answers using List.reverseRecOn with
  | nil => exact ⟨rfl, rfl, Nat.zero_le _, Nat.zero_le _⟩
  | append_singleton answers a ih =>
    rw [negotiateSplice_snoc]
    exact ih.step a

/-! ### Rounds of the loop -/

namespace SpliceRelay

/-- The section `pc`, if it is the next one. -/
def atSection (capacity : Nat) (a : SpliceAnswer) (r : SpliceRelay × List SpliceCall)
    (pc : Section) : SpliceRelay × List SpliceCall :=
  if r.1.pc = pc then ((r.1.step capacity a).1, r.2 ++ (r.1.step capacity a).2) else r

/-- The round from a loop head to the next one, or to the end of the relay. -/
def round (capacity : Nat) (s : SpliceRelay) (a : SpliceAnswer) : SpliceRelay × List SpliceCall :=
  [Section.poll, .readClient, .readProxy, .writeClient, .writeProxy].foldl
    (atSection capacity a) (s, [])

end SpliceRelay

/-- How a section ends: it goes on to the next one, with `continue`, or with the end of the
relay. -/
inductive Fate
  | passes
  | retries
  | ends
  deriving DecidableEq, Repr

def Errno.fate (e : Errno) : Fate := if e = .other then .ends else .retries

/-- How a section ends that makes a call if it is `due`. -/
def callFate {α : Type} (due : Bool) (r : Except Errno α) : Fate :=
  if due then
    match r with
    | .error e => e.fate
    | .ok _ => .passes
  else .passes

/-- The section that comes next. -/
def Fate.next (f : Fate) (next : Section) (status : Int) : Section :=
  match f with
  | .passes => next
  | .retries => .poll
  | .ends => .done status

/-- Going through these sections, the first one that does not go on to the next goes back to the
loop head. -/
def stalls : List Fate → Bool
  | [] => false
  | .passes :: fates => stalls fates
  | .retries :: _ => true
  | .ends :: _ => false

namespace SpliceRelay

section Fates

variable (capacity : Nat) (s : SpliceRelay) (client proxy : Revents) (a : SpliceAnswer)

/-- The section that reads from the client. -/
def clientRead : Fate := callFate client.pollin (spliceIn capacity s.pipecli a.readClient)

/-- The section that reads from the proxy, whose end of file ends the relay. -/
def proxyRead : Fate :=
  if proxy.pollin ∧ spliceIn capacity s.pipesrv a.readProxy = .ok [] then .ends
  else callFate proxy.pollin (spliceIn capacity s.pipesrv a.readProxy)

/-- The section that writes to the client, what was in the pipe or has just been read. -/
def clientWrite : Fate :=
  callFate (client.pollout && (!s.pipesrv.isEmpty || proxy.pollin)) a.writeClient

end Fates

/-- The round ends the relay, or attempts to drain each pipe that is not empty and whose sink is
reported to be writable. -/
def KeepsDraining (s : SpliceRelay) (client proxy : Revents) (r : SpliceRelay × List SpliceCall) :
    Prop :=
  (∃ status, r.1.pc = .done status) ∨
    (s.pipesrv ≠ [] → client.pollout = true → ∃ c ∈ r.2, c.drains .client = true) ∧
    (s.pipecli ≠ [] → proxy.pollout = true → ∃ c ∈ r.2, c.drains .proxy = true)

/-- No splice that fails for now stands before a drain that is due. -/
def Unhindered (capacity : Nat) (s : SpliceRelay) (client proxy : Revents) (a : SpliceAnswer) :
    Prop :=
  (s.pipesrv ≠ [] → client.pollout = true →
    stalls [s.clientRead capacity client a, s.proxyRead capacity proxy a] = false) ∧
  (s.pipecli ≠ [] → proxy.pollout = true →
    stalls [s.clientRead capacity client a, s.proxyRead capacity proxy a,
      s.clientWrite client proxy a] = false)

/-- What the two reading sections keep of a state. -/
structure ReadFrame (s s' : SpliceRelay) : Prop where
  client : s'.client.revents = s.client.revents
  proxy : s'.proxy.revents = s.proxy.revents
  pipecli : s.pipecli <+: s'.pipecli

section Sections

variable {capacity : Nat} {s : SpliceRelay} {a : SpliceAnswer}

theorem retry_pc (s : SpliceRelay) (e : Errno) (next : Section) :
    (s.retry e).pc = Fate.next e.fate next 1 := by
  cases e <;> rfl

/-- None of these calls drains a pipe to `fd`. -/
def NoDrain (fd : Peer) (calls : List SpliceCall) : Prop := ∀ c ∈ calls, c.drains fd = false

theorem readClient_spec (capacity : Nat) (s : SpliceRelay) (a : SpliceAnswer) :
    let out := s.readClient capacity a.readClient
    out.1.pc = Fate.next (s.clientRead capacity s.client.revents a) .readProxy 1 ∧
      s.ReadFrame out.1 ∧ out.1.pipesrv = s.pipesrv ∧ ∀ fd, NoDrain fd out.2 := by
  simp only [readClient, clientRead, callFate]
  cases hin : s.client.revents.pollin with
  | false => exact ⟨rfl, ⟨rfl, rfl, List.prefix_refl _⟩, rfl, by simp [NoDrain]⟩
  | true =>
    simp only [if_true]
    cases spliceIn capacity s.pipecli a.readClient with
    | error e =>
      refine ⟨retry_pc s e _, ⟨rfl, rfl, List.prefix_refl _⟩, rfl, ?_⟩
      simp [NoDrain, SpliceCall.drains]
    | ok data =>
      cases data with
      | nil =>
        refine ⟨rfl, ⟨rfl, rfl, List.prefix_refl _⟩, rfl, ?_⟩
        by_cases hempty : s.npipecli = 0 <;> simp [hempty, NoDrain, SpliceCall.drains]
      | cons c cs =>
        refine ⟨rfl, ⟨rfl, rfl, List.prefix_append _ _⟩, rfl, ?_⟩
        simp [NoDrain, SpliceCall.drains]

theorem readProxy_spec (capacity : Nat) (s : SpliceRelay) (a : SpliceAnswer) :
    let out := s.readProxy capacity a.readProxy
    let fate := s.proxyRead capacity s.proxy.revents a
    (∃ status, out.1.pc = Fate.next fate .writeClient status) ∧ s.ReadFrame out.1 ∧
      (fate = .passes → (!out.1.pipesrv.isEmpty) = (!s.pipesrv.isEmpty || s.proxy.revents.pollin)) ∧
      ∀ fd, NoDrain fd out.2 := by
  simp only [readProxy, proxyRead, callFate]
  cases hin : s.proxy.revents.pollin with
  | false =>
    exact ⟨⟨1, rfl⟩, ⟨rfl, rfl, List.prefix_refl _⟩, by simp, by simp [NoDrain]⟩
  | true =>
    simp only [if_true]
    cases spliceIn capacity s.pipesrv a.readProxy with
    | error e =>
      refine ⟨⟨1, retry_pc s e _⟩, ⟨rfl, rfl, List.prefix_refl _⟩, ?_, ?_⟩
      · cases e <;> simp [Errno.fate]
      · simp [NoDrain, SpliceCall.drains]
    | ok data =>
      cases data with
      | nil =>
        refine ⟨⟨_, rfl⟩, ⟨rfl, rfl, List.prefix_refl _⟩, by simp, ?_⟩
        simp [NoDrain, SpliceCall.drains]
      | cons c cs =>
        refine ⟨⟨1, rfl⟩, ⟨rfl, rfl, List.prefix_refl _⟩, by simp, ?_⟩
        simp [NoDrain, SpliceCall.drains]

theorem pending_iff {n : Int} {pipe : List UInt8} (h : n = pipe.length) : 0 < n ↔ pipe ≠ [] := by
  rw [h, ← List.length_pos_iff]
  omega

theorem writeClient_spec (h : s.Counted capacity) (a : SpliceAnswer) :
    let out := s.writeClient a.writeClient
    let due := s.client.revents.pollout && !s.pipesrv.isEmpty
    out.1.pc = Fate.next (callFate due a.writeClient) .writeProxy 1 ∧
      out.1.proxy.revents = s.proxy.revents ∧ out.1.pipecli = s.pipecli ∧
      (due = true → ∃ c ∈ out.2, c.drains .client = true) ∧ NoDrain .proxy out.2 := by
  intro out due
  have hdue : (s.client.revents.pollout = true ∧ 0 < s.npipesrv) ↔ due = true := by
    simp [due, pending_iff h.npipesrv]
  simp only [out, writeClient, hdue]
  cases due with
  | false => exact ⟨rfl, rfl, rfl, by simp, by simp [NoDrain]⟩
  | true =>
    simp only [if_true]
    cases a.writeClient with
    | error e =>
      exact ⟨retry_pc s e _, rfl, rfl, fun _ => ⟨_, List.mem_cons_self, rfl⟩,
        by simp [spliceOut, Except.map, NoDrain, SpliceCall.drains]⟩
    | ok n =>
      exact ⟨rfl, rfl, rfl, fun _ => ⟨_, List.mem_cons_self, rfl⟩,
        by simp [spliceOut, Except.map, NoDrain, SpliceCall.drains]⟩

theorem writeProxy_spec (h : s.Counted capacity) (a : SpliceAnswer) :
    let out := s.writeProxy a.writeProxy
    s.proxy.revents.pollout = true → s.pipecli ≠ [] → ∃ c ∈ out.2, c.drains .proxy = true := by
  intro out hout hpending
  simp only [out, writeProxy, pending_iff h.npipecli, if_pos (And.intro hout hpending)]
  cases spliceOut s.pipecli a.writeProxy <;> exact ⟨_, List.mem_cons_self, rfl⟩

theorem foldl_atSection_of_ne {r : SpliceRelay × List SpliceCall} {pcs : List Section}
    (h : ∀ pc ∈ pcs, r.1.pc ≠ pc) : pcs.foldl (atSection capacity a) r = r := by
  induction pcs with
  | nil => rfl
  | cons pc pcs ih =>
    obtain ⟨hpc, hpcs⟩ := List.forall_mem_cons.mp h
    rw [List.foldl_cons, atSection, if_neg hpc, ih hpcs]

theorem atSection_of_eq {r : SpliceRelay × List SpliceCall} {pc : Section} (h : r.1.pc = pc) :
    atSection capacity a r pc = ((r.1.step capacity a).1, r.2 ++ (r.1.step capacity a).2) :=
  if_pos h

theorem NoDrain.append {fd : Peer} {calls new : List SpliceCall} (h : NoDrain fd calls)
    (hnew : NoDrain fd new) : NoDrain fd (calls ++ new) := fun c hc =>
  (List.mem_append.mp hc).elim (h c) (hnew c)

/-- The state and the calls of a round behind the section that reads from the client. -/
structure AfterClient (capacity : Nat) (s : SpliceRelay) (client proxy : Revents) (a : SpliceAnswer)
    (r : SpliceRelay × List SpliceCall) : Prop where
  noDrain : ∀ fd, NoDrain fd r.2
  counted : r.1.Counted capacity
  pc : r.1.pc = Fate.next (s.clientRead capacity client a) .readProxy 1
  client : r.1.client.revents = client
  proxy : r.1.proxy.revents = proxy
  pipecli : s.pipecli <+: r.1.pipecli
  pipesrv : r.1.pipesrv = s.pipesrv

theorem round_readClient (hcount : s.Counted capacity) (hpc : s.pc = .poll) {client proxy : Revents}
    (ha : a.poll = .ready client proxy) :
    ∃ r, AfterClient capacity s client proxy a r ∧ s.round capacity a =
      [Section.readProxy, .writeClient, .writeProxy].foldl (atSection capacity a) r := by
  have hstep : s.step capacity a = s.poll (.ready client proxy) := by rw [step, hpc, ← ha]
  have hno : ∀ fd, NoDrain fd (s.poll (.ready client proxy)).2 := by
    simp [NoDrain, SpliceRelay.poll, SpliceCall.drains]
  rw [round, List.foldl_cons, atSection_of_eq hpc, List.foldl_cons, hstep, List.nil_append,
    atSection_of_eq (show (s.poll (.ready client proxy)).1.pc = .readClient from rfl)]
  obtain ⟨hpc', hframe, hsrv, hno'⟩ := readClient_spec capacity (s.poll (.ready client proxy)).1 a
  refine ⟨(_, _), ⟨fun fd => (hno fd).append (hno' fd),
    (hcount.poll _).readClient a.readClient, hpc', hframe.client, hframe.proxy, hframe.pipecli,
    hsrv⟩, rfl⟩

/-- How the two reading sections of a round leave it, with what they read in the pipes. -/
inductive AfterReads (capacity : Nat) (s : SpliceRelay) (client proxy : Revents) (a : SpliceAnswer)
    (s' : SpliceRelay) : Prop
  | passed (hpc : s'.pc = .writeClient) (hclient : s.clientRead capacity client a = .passes)
      (hproxy : s.proxyRead capacity proxy a = .passes) (hclient' : s'.client.revents = client)
      (hproxy' : s'.proxy.revents = proxy) (hcli : s.pipecli <+: s'.pipecli)
      (hsrv : (!s'.pipesrv.isEmpty) = (!s.pipesrv.isEmpty || proxy.pollin))
  | stalled (hpc : s'.pc = .poll) (hstalls : ∀ fates, stalls (s.clientRead capacity client a ::
      s.proxyRead capacity proxy a :: fates) = true)
  | ended {status : Int} (hpc : s'.pc = .done status) (hstalls : ∀ fates,
      stalls (s.clientRead capacity client a :: s.proxyRead capacity proxy a :: fates) = false)

theorem AfterClient.readProxy {client proxy : Revents} {r r' : SpliceRelay × List SpliceCall}
    (h : AfterClient capacity s client proxy a r) (hr' : r' = atSection capacity a r .readProxy) :
    (∀ fd, NoDrain fd r'.2) ∧ r'.1.Counted capacity ∧
      AfterReads capacity s client proxy a r'.1 := by
  have hpc := h.pc
  cases hclient : s.clientRead capacity client a with
  | passes =>
    rw [hclient] at hpc
    change r.1.pc = .readProxy at hpc
    have hstep : r.1.step capacity a = r.1.readProxy capacity a.readProxy := by
      rw [step, hpc]
    have hfate : r.1.proxyRead capacity r.1.proxy.revents a = s.proxyRead capacity proxy a := by
      rw [proxyRead, proxyRead, h.pipesrv, h.proxy]
    obtain ⟨⟨status, hpc'⟩, hframe, hsrv, hno⟩ := readProxy_spec capacity r.1 a
    rw [hfate] at hpc' hsrv
    rw [h.pipesrv, h.proxy] at hsrv
    rw [hr', atSection_of_eq hpc, hstep]
    refine ⟨fun fd => (h.noDrain fd).append (hno fd), h.counted.readProxy a.readProxy, ?_⟩
    cases hproxy : s.proxyRead capacity proxy a with
    | passes =>
      rw [hproxy] at hpc'
      exact .passed hpc' hclient hproxy (hframe.client.trans h.client) (hframe.proxy.trans h.proxy)
        (h.pipecli.trans hframe.pipecli) (hsrv hproxy)
    | retries =>
      rw [hproxy] at hpc'
      exact .stalled hpc' fun _ => by rw [hclient, hproxy]; rfl
    | ends =>
      rw [hproxy] at hpc'
      exact .ended hpc' fun _ => by rw [hclient, hproxy]; rfl
  | retries =>
    rw [hclient] at hpc
    have hskip : r' = r := hr'.trans (if_neg (by simp [hpc, Fate.next]))
    rw [hskip]
    exact ⟨h.noDrain, h.counted, .stalled hpc fun _ => by rw [hclient]; rfl⟩
  | ends =>
    rw [hclient] at hpc
    have hskip : r' = r := hr'.trans (if_neg (by simp [hpc, Fate.next]))
    rw [hskip]
    exact ⟨h.noDrain, h.counted, .ended hpc fun _ => by rw [hclient]; rfl⟩

theorem NoDrain.not_drains {fd : Peer} {calls : List SpliceCall} (h : NoDrain fd calls) :
    ¬ ∃ c ∈ calls, c.drains fd = true := by
  rintro ⟨c, hc, hdrain⟩
  simp [h c hc] at hdrain

/-- The two writing sections of a round. -/
theorem keepsDraining_of_passed {client proxy : Revents} {r : SpliceRelay × List SpliceCall}
    (hno : ∀ fd, NoDrain fd r.2) (hcount : r.1.Counted capacity) (hpc : r.1.pc = .writeClient)
    (hclient : r.1.client.revents = client) (hproxy : r.1.proxy.revents = proxy)
    (hcli : s.pipecli <+: r.1.pipecli)
    (hsrv : (!r.1.pipesrv.isEmpty) = (!s.pipesrv.isEmpty || proxy.pollin)) :
    s.KeepsDraining client proxy
        ([Section.writeClient, .writeProxy].foldl (atSection capacity a) r) ↔
      (s.pipecli ≠ [] → proxy.pollout = true → s.clientWrite client proxy a ≠ .retries) := by
  have hstep : r.1.step capacity a = r.1.writeClient a.writeClient := by
    rw [step, hpc]
  obtain ⟨hpc', hproxy', hcli', hdrains, hno'⟩ := writeClient_spec hcount a
  have hcount' := hcount.writeClient a.writeClient
  rw [hclient, hsrv] at hdrains hpc'
  rw [List.foldl_cons, atSection_of_eq hpc, hstep, List.foldl_cons, List.foldl_nil]
  generalize (r.1.writeClient a.writeClient) = out at hpc' hproxy' hcli' hdrains hno' hcount' ⊢
  have hclient : s.pipesrv ≠ [] → client.pollout = true →
      ∃ c ∈ r.2 ++ out.2, c.drains .client = true := fun hpending hout => by
    obtain ⟨c, hc, hdrain⟩ := hdrains (by simp [hpending, hout])
    exact ⟨c, List.mem_append_right _ hc, hdrain⟩
  change _ = Fate.next (s.clientWrite client proxy a) _ _ at hpc'
  cases hfate : s.clientWrite client proxy a with
  | passes =>
    rw [hfate] at hpc'
    change out.1.pc = .writeProxy at hpc'
    have hstep' : out.1.step capacity a = out.1.writeProxy a.writeProxy := by
      rw [step, hpc']
    rw [atSection_of_eq (r := (out.1, r.2 ++ out.2)) hpc', hstep']
    refine iff_of_true (.inr ⟨fun hpending hout => ?_, fun hpending hout => ?_⟩) (by simp)
    · obtain ⟨c, hc, hdrain⟩ := hclient hpending hout
      exact ⟨c, List.mem_append_left _ hc, hdrain⟩
    · have hne : out.1.pipecli ≠ [] := fun hnil => by
        rw [← hcli', hnil, List.prefix_nil] at hcli
        exact hpending hcli
      obtain ⟨c, hc, hdrain⟩ := writeProxy_spec hcount' a (by rwa [hproxy', hproxy]) hne
      exact ⟨c, List.mem_append_right _ hc, hdrain⟩
  | retries =>
    rw [hfate] at hpc'
    change out.1.pc = .poll at hpc'
    rw [atSection, if_neg (by simp [hpc'])]
    constructor
    · rintro (⟨status, hdone⟩ | ⟨-, hdrain⟩) hpending hout
      · rw [hpc'] at hdone
        cases hdone
      · exact absurd (hdrain hpending hout) ((hno .proxy).append hno').not_drains
    · exact fun h => .inr ⟨hclient, fun hpending hout => absurd rfl (h hpending hout)⟩
  | ends =>
    rw [hfate] at hpc'
    change out.1.pc = .done 1 at hpc'
    rw [atSection, if_neg (by simp [hpc'])]
    exact iff_of_true (.inl ⟨1, hpc'⟩) (by simp)

/-- A round drains as it should if and only if no splice that fails for now stands before a
drain. -/
theorem round_keepsDraining_iff (hcount : s.Counted capacity) (hpc : s.pc = .poll)
    {client proxy : Revents} (ha : a.poll = .ready client proxy) :
    s.KeepsDraining client proxy (s.round capacity a) ↔ s.Unhindered capacity client proxy a := by
  obtain ⟨r, hr, hround⟩ := round_readClient hcount hpc ha
  obtain ⟨hno, hcount', hreads⟩ := hr.readProxy rfl
  rw [hround, List.foldl_cons]
  cases hreads with
  | passed hpc' hclient hproxy hclient' hproxy' hcli hsrv =>
    rw [keepsDraining_of_passed hno hcount' hpc' hclient' hproxy' hcli hsrv, Unhindered, hclient,
      hproxy]
    cases s.clientWrite client proxy a <;> simp [stalls]
  | stalled hpc' hstalls =>
    rw [foldl_atSection_of_ne (by simp [hpc']), Unhindered, hstalls, hstalls]
    constructor
    · rintro (⟨status, hdone⟩ | ⟨hclient, hproxy⟩)
      · rw [hpc'] at hdone
        cases hdone
      · exact ⟨fun hp ho => absurd (hclient hp ho) (hno .client).not_drains,
          fun hp ho => absurd (hproxy hp ho) (hno .proxy).not_drains⟩
    · rintro ⟨hclient, hproxy⟩
      exact .inr ⟨fun hp ho => (by cases hclient hp ho), fun hp ho => (by cases hproxy hp ho)⟩
  | ended hpc' hstalls =>
    rw [foldl_atSection_of_ne (by simp [hpc']), Unhindered, hstalls, hstalls]
    exact iff_of_true (.inl ⟨_, hpc'⟩) ⟨fun _ _ => rfl, fun _ _ => rfl⟩

end Sections

/-- At the loop head, or done. -/
def Idle (s : SpliceRelay) : Prop := s.pc = .poll ∨ ∃ status, s.pc = .done status

section Rounds

variable {capacity : Nat} {a : SpliceAnswer} {r : SpliceRelay × List SpliceCall}

theorem foldl_atSection_run (pcs : List Section) (r : SpliceRelay × List SpliceCall) :
    ∃ k, ∀ calls, (List.replicate k a).foldl
      (fun (s, calls) a => ((s.step capacity a).1, calls ++ (s.step capacity a).2))
        (r.1, calls ++ r.2) =
      ((pcs.foldl (atSection capacity a) r).1,
        calls ++ (pcs.foldl (atSection capacity a) r).2) := by
  induction pcs generalizing r with
  | nil => exact ⟨0, fun _ => rfl⟩
  | cons pc pcs ih =>
    rw [List.foldl_cons]
    by_cases hpc : r.1.pc = pc
    · obtain ⟨k, hk⟩ := ih (atSection capacity a r pc)
      refine ⟨k + 1, fun calls => ?_⟩
      rw [← hk, List.replicate_succ, List.foldl_cons, atSection_of_eq hpc, ← List.append_assoc]
    · rw [atSection, if_neg hpc]
      exact ih r

theorem idle_of_next {s : SpliceRelay} {f : Fate} {next : Section} {status : Int}
    (h : s.pc = f.next next status) : s.pc = next ∨ s.Idle := by
  cases f with
  | passes => exact .inl h
  | retries => exact .inr (.inl h)
  | ends => exact .inr (.inr ⟨status, h⟩)

theorem retry_idle (s : SpliceRelay) (e : Errno) : (s.retry e).Idle := by
  cases e
  · exact .inl rfl
  · exact .inl rfl
  · exact .inr ⟨1, rfl⟩

theorem writeProxy_idle (s : SpliceRelay) (w : Except Errno Nat) : (s.writeProxy w).1.Idle := by
  rw [SpliceRelay.writeProxy]
  split
  · cases spliceOut s.pipecli w with
    | error e => exact retry_idle s e
    | ok data => exact .inl rfl
  · exact .inl rfl

theorem left_le {s : SpliceRelay} {pc : Section} (h : s.pc = pc ∨ s.Idle) :
    s.pc.left ≤ pc.left := by
  rcases h with rfl | h
  · exact Nat.le_refl _
  · rw [Section.left_eq_zero.mpr h]
    exact Nat.zero_le _

theorem left_step {s : SpliceRelay} (hcount : s.Counted capacity)
    (h : 0 < s.pc.left) : (s.step capacity a).1.pc.left < s.pc.left := by
  cases hpc : s.pc with
  | readClient =>
    have := left_le (idle_of_next (readClient_spec capacity s a).1)
    simpa only [step, hpc, Section.left] using Nat.lt_succ_of_le this
  | readProxy =>
    obtain ⟨⟨status, hnext⟩, -⟩ := readProxy_spec capacity s a
    have := left_le (idle_of_next hnext)
    simpa only [step, hpc, Section.left] using Nat.lt_succ_of_le this
  | writeClient =>
    have := left_le (idle_of_next (writeClient_spec hcount a).1)
    simpa only [step, hpc, Section.left] using Nat.lt_succ_of_le this
  | writeProxy =>
    have := Section.left_eq_zero.mpr (writeProxy_idle s a.writeProxy)
    simpa only [step, hpc, Section.left] using Nat.lt_succ_of_le this.le
  | poll | done => simp [hpc] at h

theorem atSection_left {p : Section} {n : Nat} (hcount : r.1.Counted capacity)
    (hp : ∀ pc : Section, pc.left = n + 1 ↔ pc = p) (h : r.1.pc.left ≤ n + 1) :
    (atSection capacity a r p).1.Counted capacity ∧
      (atSection capacity a r p).1.pc.left ≤ n := by
  by_cases hnext : r.1.pc = p
  · have hleft := (hp r.1.pc).mpr hnext
    have hstep := left_step (a := a) hcount (by omega)
    rw [hleft] at hstep
    rw [atSection_of_eq hnext]
    exact ⟨hcount.step a, Nat.le_of_lt_succ hstep⟩
  · have hleft := mt (hp r.1.pc).mp hnext
    rw [atSection, if_neg hnext]
    exact ⟨hcount, by omega⟩

theorem round_idle {s : SpliceRelay} (hcount : s.Counted capacity) (hpc : s.pc = .poll)
    (a : SpliceAnswer) : (s.round capacity a).1.Idle := by
  have hpoll : (atSection capacity a (s, []) .poll).1.Counted capacity := by
    rw [atSection_of_eq hpc]
    exact hcount.step a
  obtain ⟨hcount1, h1⟩ := atSection_left (a := a) (p := .readClient) hpoll (n := 3)
    (fun pc => by cases pc <;> simp)
    (Section.left_le _)
  obtain ⟨hcount2, h2⟩ := atSection_left (a := a) (p := .readProxy) hcount1 (n := 2)
    (fun pc => by cases pc <;> simp) h1
  obtain ⟨hcount3, h3⟩ := atSection_left (a := a) (p := .writeClient) hcount2 (n := 1)
    (fun pc => by cases pc <;> simp) h2
  obtain ⟨-, h4⟩ := atSection_left (a := a) (p := .writeProxy) hcount3 (n := 0)
    (fun pc => by cases pc <;> simp) h3
  exact Section.left_eq_zero.mp (Nat.le_zero.mp h4)

end Rounds

end SpliceRelay

/-- At every point of every run the counters are right, and a round that starts there drains the
pipes that are not empty and whose sinks are reported to be writable, if and only if no splice that
fails for now stands before the drain. -/
theorem negotiateSplice_drains_iff (capacity : Nat) (setup : SpliceSetup)
    (answers : List SpliceAnswer) :
    let s := (negotiateSplice capacity setup answers).1
    s.Counted capacity ∧ (s.pc = .poll → ∀ (a : SpliceAnswer) (client proxy : Revents),
      a.poll = .ready client proxy →
        (∃ more, negotiateSplice capacity setup (answers ++ more) = ((s.round capacity a).1,
          (negotiateSplice capacity setup answers).2 ++ (s.round capacity a).2)) ∧
        (s.round capacity a).1.Idle ∧
        (s.KeepsDraining client proxy (s.round capacity a) ↔
          s.Unhindered capacity client proxy a)) := by
  have hcount := negotiateSplice_counted capacity setup answers
  refine ⟨hcount, fun hpc a client proxy ha => ⟨?_, SpliceRelay.round_idle hcount hpc a,
    SpliceRelay.round_keepsDraining_iff hcount hpc ha⟩⟩
  obtain ⟨k, hk⟩ :=
    SpliceRelay.foldl_atSection_run _ ((negotiateSplice capacity setup answers).1, [])
  refine ⟨List.replicate k a, ?_⟩
  rw [negotiateSplice, List.foldl_append]
  have hrun := hk (negotiateSplice capacity setup answers).2
  rw [List.append_nil] at hrun
  exact hrun

/-- The client sends a byte, which fills a pipe that holds one byte. -/
def fullPipe : List SpliceAnswer :=
  List.replicate 5 ⟨.ready ⟨true, false, false, false, false⟩ ⟨false, false, false, false, false⟩,
    .ok [65], .ok [], .ok 0, .ok 0⟩

/-- The pipe is drained when the client does not send more. -/
theorem negotiateSplice_drains_byte :
    let s := (negotiateSplice 1 ⟨true, true, true, true⟩ fullPipe).1
    let proxy : Revents := ⟨false, true, false, false, false⟩
    let client : Revents := ⟨false, false, false, false, false⟩
    s.pipecli = [65] ∧
      s.KeepsDraining client proxy
        (s.round 1 ⟨.ready client proxy, .ok [], .ok [], .ok 0, .ok 1⟩) := by
  refine ⟨rfl, ?_⟩
  exact (((negotiateSplice_drains_iff 1 ⟨true, true, true, true⟩ fullPipe).2 rfl _ _ _ rfl).2.2).mpr
    ⟨fun h => absurd rfl h, fun _ _ => rfl⟩

/-- The pipe is not drained as long as the client can be read from, although the proxy can be
written to. -/
theorem negotiateSplice_drains_counterexample :
    let s := (negotiateSplice 1 ⟨true, true, true, true⟩ fullPipe).1
    let client : Revents := ⟨true, false, false, false, false⟩
    let proxy : Revents := ⟨false, true, false, false, false⟩
    let out := s.round 1 ⟨.ready client proxy, .ok [65], .ok [], .ok 0, .ok 1⟩
    s.pc = .poll ∧ s.pipecli = [65] ∧ ¬ s.KeepsDraining client proxy out ∧
      out.1.pc = .poll ∧ out.1.pipecli = s.pipecli := by
  refine ⟨rfl, rfl, ?_, rfl, rfl⟩
  rintro (⟨status, hdone⟩ | ⟨-, hdrain⟩)
  · cases hdone
  · obtain ⟨c, hc, hdrain⟩ := hdrain (by decide) rfl
    rcases List.mem_pair.mp hc with rfl | rfl <;> cases hdrain

end Silksocks
