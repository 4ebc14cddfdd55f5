import Silksocks.NegotiateEvents

/-! The relay of `negotiate.c` in the build that uses `select`, as a state machine like that of the
build with `poll`.  Unlike there, a read or write that would block goes on to the next section, any
other failure ends the relay, and what was just read is tried to be written in the same
iteration. -/

namespace Silksocks

open StreamBuffer

/-- An `fd_set` of the two sockets. -/
structure FdSet where
  client : Bool
  proxy : Bool
  deriving DecidableEq, Repr

/-- The calls of `negotiate` with their results; `select` returns the sets of ready sockets. -/
inductive SelectCall
  | select (rset wset : FdSet) (r : Option (FdSet × FdSet))
  | read (fd : Peer) (off len : Nat) (r : Except Errno (List UInt8))
  | write (fd : Peer) (off len : Nat) (r : Except Errno (List UInt8))
  | shutdown

/-- What the next system call returns, whichever it is. -/
structure SelectAnswer where
  select : Option (FdSet × FdSet)
  read : Except Errno (List UInt8)
  write : Except Errno Nat

/-- The section that comes next. -/
inductive SelectSection
  | select
  | readClient
  | readProxy
  | writeClient
  | writeProxy
  | done (status : Int)
  deriving DecidableEq, Repr

/-- The variables of `negotiate`. -/
structure SelectRelay where
  clienteof : Bool
  toBuf : Buf UInt8
  frBuf : Buf UInt8
  rset : FdSet
  wset : FdSet
  pc : SelectSection

namespace SelectRelay

/-- The first statements of the loop: which sockets to wait for. -/
def selectSets (s : SelectRelay) : SelectRelay :=
  { s with
    rset :=
      { client := s.clienteof = false && s.toBuf.iptr < bufsize
        proxy := s.frBuf.iptr < bufsize }
    wset :=
      { client := s.frBuf.optr ≠ s.frBuf.iptr
        proxy := s.toBuf.optr ≠ s.toBuf.iptr } }

/-- What follows the failure of a read or a write: the next section, or the end of the relay. -/
def skip (s : SelectRelay) (e : Errno) (next : SelectSection) : SelectRelay :=
  { s with pc := if e = .eagain then next else .done 1 }

def select (s : SelectRelay) (r : Option (FdSet × FdSet)) : SelectRelay × List SelectCall :=
  let s := s.selectSets
  let call := SelectCall.select s.rset s.wset r
  match r with
  | none => ({ s with pc := .done 1 }, [call])
  | some (rset, wset) => ({ s with rset, wset, pc := .readClient }, [call])

def readClient (s : SelectRelay) (r : Except Errno (List UInt8)) :
    SelectRelay × List SelectCall :=
  if s.rset.client then
    let len := bufsize - s.toBuf.iptr
    match r.map (List.take len) with
    | .error e => (s.skip e .readProxy, [.read .client s.toBuf.iptr len (.error e)])
    | .ok [] =>
      ({ s with clienteof := true, pc := .readProxy },
        .read .client s.toBuf.iptr len (.ok []) ::
          if s.toBuf.optr = s.toBuf.iptr then [.shutdown] else [])
    | .ok data =>
      -- the set is the one that the write below looks at
      ({ s with toBuf := s.toBuf.fill data, wset.proxy := true, pc := .readProxy },
        [.read .client s.toBuf.iptr len (.ok data)])
  else ({ s with pc := .readProxy }, [])

def readProxy (s : SelectRelay) (r : Except Errno (List UInt8)) :
    SelectRelay × List SelectCall :=
  if s.rset.proxy then
    let len := bufsize - s.frBuf.iptr
    match r.map (List.take len) with
    | .error e => (s.skip e .writeClient, [.read .proxy s.frBuf.iptr len (.error e)])
    | .ok [] =>
      ({ s with pc := .done (if s.clienteof then 0 else 1) },
        [.read .proxy s.frBuf.iptr len (.ok [])])
    | .ok data =>
      ({ s with frBuf := s.frBuf.fill data, wset.client := true, pc := .writeClient },
        [.read .proxy s.frBuf.iptr len (.ok data)])
  else ({ s with pc := .writeClient }, [])

def writeClient (s : SelectRelay) (r : Except Errno Nat) : SelectRelay × List SelectCall :=
  let n := s.frBuf.iptr - s.frBuf.optr
  if s.wset.client ∧ 0 < n then
    match r.map (min n) with
    | .error e => (s.skip e .writeProxy, [.write .client s.frBuf.optr n (.error e)])
    | .ok nwritten =>
      let frBuf := s.frBuf.drain nwritten
      ({ s with
          frBuf := if frBuf.optr = frBuf.iptr then frBuf.rewind else frBuf, pc := .writeProxy },
        [.write .client s.frBuf.optr n (.ok (s.frBuf.pending.take nwritten))])
  else ({ s with pc := .writeProxy }, [])

def writeProxy (s : SelectRelay) (r : Except Errno Nat) : SelectRelay × List SelectCall :=
  let n := s.toBuf.iptr - s.toBuf.optr
  if s.wset.proxy ∧ 0 < n then
    match r.map (min n) with
    | .error e => (s.skip e .select, [.write .proxy s.toBuf.optr n (.error e)])
    | .ok nwritten =>
      let toBuf := s.toBuf.drain nwritten
      let call := SelectCall.write .proxy s.toBuf.optr n (.ok (s.toBuf.pending.take nwritten))
      if toBuf.optr = toBuf.iptr then
        ({ s with toBuf := toBuf.rewind, pc := .select },
          call :: if s.clienteof then [.shutdown] else [])
      else ({ s with toBuf, pc := .select }, [call])
  else ({ s with pc := .select }, [])

/-- One section of the loop. -/
def step (s : SelectRelay) (a : SelectAnswer) : SelectRelay × List SelectCall :=
  match s.pc with
  | .select => s.select a.select
  | .readClient => s.readClient a.read
  | .readProxy => s.readProxy a.read
  | .writeClient => s.writeClient a.write
  | .writeProxy => s.writeProxy a.write
  | .done _ => (s, [])

end SelectRelay

/-- The state before the loop. -/
def selectInit (setup : Setup) : SelectRelay where
  clienteof := false
  toBuf := .empty setup.toMem
  frBuf := .empty setup.frMem
  rset := ⟨false, false⟩
  wset := ⟨false, false⟩
  pc := if setup.clientNonblock && setup.proxyNonblock then .select else .done 1

/-- `negotiate` up to some point of its run: the state there and the calls made so far. -/
def negotiateSelect (setup : Setup) (answers : List SelectAnswer) :
    SelectRelay × List SelectCall :=
  answers.foldl
    (fun (s, calls) a => ((s.step a).1, calls ++ (s.step a).2)) (selectInit setup, [])

theorem negotiateSelect_snoc (setup : Setup) (answers : List SelectAnswer) (a : SelectAnswer) :
    negotiateSelect setup (answers ++ [a]) =
      (((negotiateSelect setup answers).1.step a).1,
        (negotiateSelect setup answers).2 ++ ((negotiateSelect setup answers).1.step a).2) := by
  simp [negotiateSelect, List.foldl_append]

/-! ### No direction is parked -/

/-- What the loop head waits for.  A direction that is still open waits for its source or its sink,
pending bytes wait for their sink. -/
structure Awake (clienteof : Bool) (toBuf frBuf : Buf UInt8)
    (clientIn proxyIn clientOut proxyOut : Bool) : Prop where
  toClient : proxyIn = true ∨ clientOut = true
  toProxy : clienteof = false → clientIn = true ∨ proxyOut = true
  pendingClient : frBuf.pending ≠ [] → clientOut = true
  pendingProxy : toBuf.pending ≠ [] → proxyOut = true

theorem awake_of_fresh {clienteof : Bool} {toBuf frBuf : Buf UInt8} (hto : toBuf.Fresh bufsize)
    (hfr : frBuf.Fresh bufsize) :
    Awake clienteof toBuf frBuf (clienteof = false && toBuf.iptr < bufsize)
      (frBuf.iptr < bufsize) (frBuf.optr ≠ frBuf.iptr) (toBuf.optr ≠ toBuf.iptr) := by
  have hcap : 0 < bufsize := by decide
  constructor
  · simpa using hfr.room_or_pending hcap
  · intro heof
    simpa [heof] using hto.room_or_pending hcap
  · intro hpending
    simpa [Buf.pending_eq_nil hfr.within] using hpending
  · intro hpending
    simpa [Buf.pending_eq_nil hto.within] using hpending

namespace Relay

/-- Both buffers start over when they are drained. -/
structure Drains (s : Relay) : Prop where
  toBuf : s.toBuf.Fresh bufsize
  frBuf : s.frBuf.Fresh bufsize

theorem Drains.step {s s' : Relay} {new : List RelayCall} (h : s.Drains) (hm : s.Move s' new) :
    s'.Drains := by
  have := h.toBuf.within.bound
  have := h.frBuf.within.bound
  cases hm with
  | clientRead hpc hin hdata hlen => exact ⟨h.toBuf.fill (by omega), h.frBuf⟩
  | proxyRead hpc hin hdata hlen => exact ⟨h.toBuf, h.frBuf.fill (by omega)⟩
  | clientWrite hpc hout hn hle => exact ⟨h.toBuf, h.frBuf.drain_or_rewind hle⟩
  | proxyWrite hpc hout hn hle => exact ⟨h.toBuf.drain_or_rewind hle, h.frBuf⟩
  | _ => exact ⟨h.toBuf, h.frBuf⟩

end Relay

/-- A read asks for some bytes. -/
def RelayCall.asks : RelayCall → Bool
  | .read _ _ len _ => 0 < len
  | _ => true

theorem Relay.Heeds.asks {s s' : Relay} {new : List RelayCall} (h : s.Heeds) (hm : s.Move s' new) :
    ∀ c ∈ new, c.asks = true := by
  cases hm with
  | clientReadFailed hpc hin | clientRead hpc hin =>
    have := (h.clientIn hpc hin).2
    simp only [List.mem_singleton, forall_eq, RelayCall.asks, decide_eq_true_eq]
    omega
  | clientEof hpc hin =>
    have := (h.clientIn hpc hin).2
    split <;> simp [RelayCall.asks] <;> omega
  | proxyReadFailed hpc hin | proxyEof hpc hin | proxyRead hpc hin =>
    have := h.proxyIn (.inr hpc) hin
    simp only [List.mem_singleton, forall_eq, RelayCall.asks, decide_eq_true_eq]
    omega
  | proxyWrite => split <;> simp [RelayCall.asks]
  | _ => simp [RelayCall.asks]

/-- Every socket of `a` is in `b`. -/
def FdSet.le (a b : FdSet) : Bool := (!a.client || b.client) && (!a.proxy || b.proxy)

namespace SelectCall

/-- What `select` reports is what was asked for. -/
def compliant : SelectCall → Bool
  | .select rset wset (some (rset', wset')) => rset'.le rset && wset'.le wset
  | _ => true

/-- A read asks for some bytes. -/
def asks : SelectCall → Bool
  | .read _ _ len _ => 0 < len
  | _ => true

end SelectCall

namespace SelectRelay

/-- Both buffers start over when they are drained, and a read that is to come has room. -/
structure Drains (s : SelectRelay) : Prop where
  toBuf : s.toBuf.Fresh bufsize
  frBuf : s.frBuf.Fresh bufsize
  clientIn : s.pc = .readClient → s.rset.client = true → s.toBuf.iptr < bufsize
  proxyIn : s.pc = .readClient ∨ s.pc = .readProxy → s.rset.proxy = true → s.frBuf.iptr < bufsize

theorem drains_of_written {s : SelectRelay} (hto : s.toBuf.Fresh bufsize)
    (hfr : s.frBuf.Fresh bufsize) (hpc : s.pc ≠ .readClient) (hpc' : s.pc ≠ .readProxy) :
    s.Drains :=
  ⟨hto, hfr, fun h => absurd h hpc, fun h => absurd h (not_or.mpr ⟨hpc, hpc'⟩)⟩

variable {s : SelectRelay}

theorem skip_pc (e : Errno) (next : SelectSection) :
    (s.skip e next).pc = next ∨ (s.skip e next).pc = .done 1 := by
  unfold skip
  by_cases h : e = .eagain
  · exact .inl (if_pos h)
  · exact .inr (if_neg h)

theorem select_drains (h : s.Drains) (r : Option (FdSet × FdSet))
    (hcompliant : ∀ c ∈ (s.select r).2, c.compliant = true) :
    (s.select r).1.Drains ∧ ∀ c ∈ (s.select r).2, c.asks = true := by
  cases r with
  | none =>
    refine ⟨drains_of_written h.toBuf h.frBuf ?_ ?_, by simp [select, SelectCall.asks]⟩
    · exact SelectSection.noConfusion
    · exact SelectSection.noConfusion
  | some sets =>
    obtain ⟨rset, wset⟩ := sets
    have hc := hcompliant _ (List.mem_singleton_self _)
    simp only [SelectCall.compliant, FdSet.le, selectSets, Bool.and_eq_true, Bool.or_eq_true,
      Bool.not_eq_true', decide_eq_true_eq] at hc
    refine ⟨⟨h.toBuf, h.frBuf, fun _ hin => ?_, fun _ hin => ?_⟩, by simp [select, SelectCall.asks]⟩
    · have hin : rset.client = true := hin
      exact (hc.1.1.resolve_left (by simp [hin])).2
    · have hin : rset.proxy = true := hin
      exact hc.1.2.resolve_left (by simp [hin])

theorem readClient_drains (h : s.Drains) (hpc : s.pc = .readClient)
    (r : Except Errno (List UInt8)) :
    (s.readClient r).1.Drains ∧ ∀ c ∈ (s.readClient r).2, c.asks = true := by
  have hproxy := h.proxyIn (.inl hpc)
  unfold readClient
  split
  case isFalse => exact ⟨⟨h.toBuf, h.frBuf, by simp, fun _ => hproxy⟩, by simp⟩
  rename_i hin
  have hroom := h.clientIn hpc hin
  have hasks : 0 < bufsize - s.toBuf.iptr := by omega
  dsimp only
  split
  · rename_i e he
    refine ⟨⟨h.toBuf, h.frBuf, fun hpc' => ?_, fun _ => hproxy⟩, by simp [SelectCall.asks, hasks]⟩
    rcases skip_pc (s := s) e .readProxy with hskip | hskip <;> simp [hskip] at hpc'
  · refine ⟨⟨h.toBuf, h.frBuf, by simp, fun _ => hproxy⟩, ?_⟩
    split <;> simp [SelectCall.asks, hasks]
  · rename_i data hne hdata
    have hlen : data.length ≤ bufsize - s.toBuf.iptr := by
      cases r with
      | error e => cases hdata
      | ok data' =>
        cases hdata
        exact List.length_take_le _ _
    refine ⟨⟨h.toBuf.fill (by omega), h.frBuf, by simp, fun _ => hproxy⟩, ?_⟩
    simp [SelectCall.asks, hasks]

theorem readProxy_drains (h : s.Drains) (hpc : s.pc = .readProxy)
    (r : Except Errno (List UInt8)) :
    (s.readProxy r).1.Drains ∧ ∀ c ∈ (s.readProxy r).2, c.asks = true := by
  unfold readProxy
  split
  case isFalse => exact ⟨drains_of_written h.toBuf h.frBuf (by simp) (by simp), by simp⟩
  rename_i hin
  have hroom := h.proxyIn (.inr hpc) hin
  have hasks : 0 < bufsize - s.frBuf.iptr := by omega
  dsimp only
  split
  · rename_i e he
    refine ⟨drains_of_written h.toBuf h.frBuf ?_ ?_, by simp [SelectCall.asks, hasks]⟩ <;>
      rcases skip_pc (s := s) e .writeClient with hskip | hskip <;> simp [hskip]
  · exact ⟨drains_of_written h.toBuf h.frBuf (by simp) (by simp), by simp [SelectCall.asks, hasks]⟩
  · rename_i data hne hdata
    have hlen : data.length ≤ bufsize - s.frBuf.iptr := by
      cases r with
      | error e => cases hdata
      | ok data' =>
        cases hdata
        exact List.length_take_le _ _
    refine ⟨drains_of_written h.toBuf (h.frBuf.fill (by omega)) (by simp) (by simp), ?_⟩
    simp [SelectCall.asks, hasks]

theorem writeClient_drains (h : s.Drains) (r : Except Errno Nat) :
    (s.writeClient r).1.Drains ∧ ∀ c ∈ (s.writeClient r).2, c.asks = true := by
  unfold writeClient
  dsimp only
  split
  case isFalse => exact ⟨drains_of_written h.toBuf h.frBuf (by simp) (by simp), by simp⟩
  split
  · rename_i e he
    refine ⟨drains_of_written h.toBuf h.frBuf ?_ ?_, by simp [SelectCall.asks]⟩ <;>
      rcases skip_pc (s := s) e .writeProxy with hskip | hskip <;> simp [hskip]
  · rename_i n hn
    have hle : n ≤ s.frBuf.iptr - s.frBuf.optr := by
      cases r with
      | error e => cases hn
      | ok n' =>
        cases hn
        exact Nat.min_le_left _ _
    refine ⟨drains_of_written h.toBuf ?_ (by simp) (by simp), by simp [SelectCall.asks]⟩
    exact h.frBuf.drain_or_rewind hle

theorem writeProxy_drains (h : s.Drains) (r : Except Errno Nat) :
    (s.writeProxy r).1.Drains ∧ ∀ c ∈ (s.writeProxy r).2, c.asks = true := by
  unfold writeProxy
  dsimp only
  split
  case isFalse => exact ⟨drains_of_written h.toBuf h.frBuf (by simp) (by simp), by simp⟩
  split
  · rename_i e he
    refine ⟨drains_of_written h.toBuf h.frBuf ?_ ?_, by simp [SelectCall.asks]⟩ <;>
      rcases skip_pc (s := s) e .select with hskip | hskip <;> simp [hskip]
  · rename_i n hn
    have hle : n ≤ s.toBuf.iptr - s.toBuf.optr := by
      cases r with
      | error e => cases hn
      | ok n' =>
        cases hn
        exact Nat.min_le_left _ _
    have hdrain : Buf.Fresh bufsize (if (s.toBuf.drain n).optr = (s.toBuf.drain n).iptr then
        s.toBuf.rewind else s.toBuf.drain n) := h.toBuf.drain_or_rewind hle
    split
    · rename_i hall
      rw [if_pos hall] at hdrain
      refine ⟨drains_of_written hdrain h.frBuf (by simp) (by simp), ?_⟩
      split <;> simp [SelectCall.asks]
    · rename_i hsome
      rw [if_neg hsome] at hdrain
      exact ⟨drains_of_written hdrain h.frBuf (by simp) (by simp), by simp [SelectCall.asks]⟩

theorem step_drains (h : s.Drains) (a : SelectAnswer)
    (hcompliant : ∀ c ∈ (s.step a).2, c.compliant = true) :
    (s.step a).1.Drains ∧ ∀ c ∈ (s.step a).2, c.asks = true := by
  unfold step at hcompliant ⊢
  cases hpc : s.pc with
  | select =>
    simp only [hpc] at hcompliant
    exact select_drains h a.select hcompliant
  | readClient => exact readClient_drains h hpc a.read
  | readProxy => exact readProxy_drains h hpc a.read
  | writeClient => exact writeClient_drains h a.write
  | writeProxy => exact writeProxy_drains h a.write
  | done status => exact ⟨h, by simp⟩

end SelectRelay

theorem negotiateSelect_drains (setup : Setup) (answers : List SelectAnswer)
    (h : ∀ c ∈ (negotiateSelect setup answers).2, c.compliant = true) :
    (negotiateSelect setup answers).1.Drains ∧
      ∀ c ∈ (negotiateSelect setup answers).2, c.asks = true := by
  induction answers using List.reverseRecOn with
  | nil =>
    refine ⟨SelectRelay.drains_of_written (.empty _) (.empty _) ?_ ?_, by simp [negotiateSelect]⟩ <;>
      simp only [negotiateSelect, selectInit, List.foldl_nil] <;> split <;> simp
  | append_singleton answers a ih =>
    rw [negotiateSelect_snoc] at h ⊢
    obtain ⟨hdrains, hasks⟩ := ih fun c hc => h c (List.mem_append_left _ hc)
    obtain ⟨hdrains', hasks'⟩ := SelectRelay.step_drains hdrains a fun c hc =>
      h c (List.mem_append_right _ hc)
    exact ⟨hdrains', fun c hc => (List.mem_append.mp hc).elim (hasks c) (hasks' c)⟩

theorem negotiate_drains (setup : Setup) (answers : List Answer)
    (h : Compliant (negotiate setup answers).2) :
    (negotiate setup answers).1.Drains ∧ ∀ c ∈ (negotiate setup answers).2, c.asks = true := by
  induction answers using List.reverseRecOn with
  | nil => exact ⟨⟨.empty _, .empty _⟩, by simp [negotiate]⟩
  | append_singleton answers a ih =>
    rw [negotiate_snoc] at h ⊢
    have hbefore : Compliant (negotiate setup answers).2 := fun c hc =>
      h c (List.mem_append_left _ hc)
    obtain ⟨hdrains, hasks⟩ := ih hbefore
    have hm := Relay.step_move (negotiate setup answers).1 a
    exact ⟨hdrains.step hm, fun c hc =>
      (List.mem_append.mp hc).elim (hasks c) ((negotiate_heeds setup answers hbefore).asks hm c)⟩

/-- In both builds, at every loop head of every run, no direction that is open is parked and
pending bytes wait for their sink; and every read asks for some bytes, so that only the end of the
file returns none. -/
theorem negotiate_never_parks :
    (∀ setup answers, Compliant (negotiate setup answers).2 →
      let s := (negotiate setup answers).1
      let head := s.selectEvents
      (s.pc = .poll → Awake s.clienteof s.toBuf s.frBuf head.client.events.pollin
        head.proxy.events.pollin head.client.events.pollout head.proxy.events.pollout) ∧
      ∀ fd off len r, .read fd off len r ∈ (negotiate setup answers).2 → 0 < len) ∧
    (∀ setup answers, (∀ c ∈ (negotiateSelect setup answers).2, c.compliant = true) →
      let s := (negotiateSelect setup answers).1
      let head := s.selectSets
      (s.pc = .select → Awake s.clienteof s.toBuf s.frBuf head.rset.client head.rset.proxy
        head.wset.client head.wset.proxy) ∧
      ∀ fd off len r, .read fd off len r ∈ (negotiateSelect setup answers).2 → 0 < len) := by
  constructor
  · intro setup answers h
    obtain ⟨hdrains, hasks⟩ := negotiate_drains setup answers h
    refine ⟨fun _ => awake_of_fresh hdrains.toBuf hdrains.frBuf, fun fd off len r hread => ?_⟩
    simpa [RelayCall.asks] using hasks _ hread
  · intro setup answers h
    obtain ⟨hdrains, hasks⟩ := negotiateSelect_drains setup answers h
    refine ⟨fun _ => awake_of_fresh hdrains.toBuf hdrains.frBuf, fun fd off len r hread => ?_⟩
    simpa [SelectCall.asks] using hasks _ hread

/-! ### A buffer that is filled and drained -/

section Filled

/-- Two open sockets. -/
def bothOpen : Setup := ⟨true, true, fun _ => 0, fun _ => 0⟩

/-- An iteration in which the client's socket is readable and has `data`. -/
def filling (data : List UInt8) : List Answer :=
  List.replicate 5 ⟨.ready ⟨true, false, false, false, false⟩ ⟨false, false, false, false, false⟩,
    .ok data, .error .eagain⟩

/-- An iteration in which the proxy's socket is writable and takes everything. -/
def draining : List Answer :=
  List.replicate 5 ⟨.ready ⟨false, false, false, false, false⟩ ⟨false, true, false, false, false⟩,
    .error .eagain, .ok bufsize⟩

def fillingSelect (data : List UInt8) : List SelectAnswer :=
  List.replicate 5 ⟨some (⟨true, false⟩, ⟨false, false⟩), .ok data, .error .eagain⟩

def drainingSelect : List SelectAnswer :=
  List.replicate 5 ⟨some (⟨false, false⟩, ⟨false, true⟩), .error .eagain, .ok bufsize⟩

attribute [local simp] negotiate negotiateInit bothOpen filling draining Relay.step Relay.poll
  Relay.readClient Relay.readProxy Relay.writeClient Relay.writeProxy Relay.selectEvents Compliant
  RelayCall.compliant negotiateSelect selectInit fillingSelect drainingSelect SelectRelay.step
  SelectRelay.select SelectRelay.readClient SelectRelay.readProxy SelectRelay.writeClient
  SelectRelay.writeProxy SelectRelay.selectSets SelectRelay.skip SelectCall.compliant FdSet.le
  Buf.empty Buf.fill Buf.drain Buf.rewind List.replicate Except.map

variable {data : List UInt8}

theorem read_full (h : data.length = bufsize) :
    ∃ c cs, data = c :: cs ∧ cs.length + 1 = bufsize ∧ (c :: cs).take bufsize = c :: cs := by
  have hpos : 0 < bufsize := by decide
  obtain ⟨c, cs, rfl⟩ := List.exists_cons_of_length_pos (h.symm ▸ hpos)
  exact ⟨c, cs, rfl, h, List.take_of_length_le (Nat.le_of_eq h)⟩

theorem filled_run (h : data.length = bufsize) : let run := negotiate bothOpen (filling data)
    run.1.pc = .poll ∧ run.1.toBuf.iptr = bufsize ∧ run.1.toBuf.optr = 0 ∧ Compliant run.2 := by
  have hpos : 0 < bufsize := by decide
  obtain ⟨c, cs, rfl, hlen, hread⟩ := read_full h
  simp [hread, hlen, hpos]

theorem filled_runSelect (h : data.length = bufsize) :
    let run := negotiateSelect bothOpen (fillingSelect data)
    run.1.pc = .select ∧ run.1.toBuf.iptr = bufsize ∧ run.1.toBuf.optr = 0 ∧
      ∀ c ∈ run.2, c.compliant = true := by
  have hpos : 0 < bufsize := by decide
  obtain ⟨c, cs, rfl, hlen, hread⟩ := read_full h
  simp [hread, hlen, hpos]

theorem drained_run (h : data.length = bufsize) :
    let run := negotiate bothOpen (filling data ++ draining)
    run.1.pc = .poll ∧ run.1.clienteof = false ∧ run.1.toBuf.iptr = 0 ∧ Compliant run.2 := by
  have hpos : 0 < bufsize := by decide
  have hne : ¬ 0 = bufsize := by decide
  obtain ⟨c, cs, rfl, hlen, hread⟩ := read_full h
  simp [hread, hlen, hpos, hne]

theorem drained_runSelect (h : data.length = bufsize) :
    let run := negotiateSelect bothOpen (fillingSelect data ++ drainingSelect)
    run.1.pc = .select ∧ run.1.clienteof = false ∧ run.1.toBuf.iptr = 0 ∧
      ∀ c ∈ run.2, c.compliant = true := by
  have hpos : 0 < bufsize := by decide
  have hne : ¬ 0 = bufsize := by decide
  obtain ⟨c, cs, rfl, hlen, hread⟩ := read_full h
  simp [hread, hlen, hpos, hne]

/-- When a read has filled the buffer for the proxy, both builds wait for the proxy's socket to be
writable; when it has been drained, they wait for one of the two sockets again. -/
theorem negotiate_never_parks_full : ∃ data : List UInt8, data.length = bufsize ∧
    (let full := (negotiate bothOpen (filling data)).1
    full.toBuf.pending.length = bufsize ∧ full.selectEvents.proxy.events.pollout = true) ∧
    (let full := (negotiateSelect bothOpen (fillingSelect data)).1
    full.toBuf.pending.length = bufsize ∧ full.selectSets.wset.proxy = true) ∧
    (let drained := (negotiate bothOpen (filling data ++ draining)).1
    drained.toBuf.pending = [] ∧ (drained.selectEvents.client.events.pollin = true ∨
      drained.selectEvents.proxy.events.pollout = true)) ∧
    let drained := (negotiateSelect bothOpen (fillingSelect data ++ drainingSelect)).1
    drained.toBuf.pending = [] ∧ (drained.selectSets.rset.client = true ∨
      drained.selectSets.wset.proxy = true) := by
  obtain ⟨data, hdata⟩ : ∃ data : List UInt8, data.length = bufsize :=
    ⟨List.replicate bufsize 7, List.length_replicate⟩
  obtain ⟨hpc, hiptr, hoptr, hcompliant⟩ := filled_run hdata
  obtain ⟨hpc', hiptr', hoptr', hcompliant'⟩ := filled_runSelect hdata
  obtain ⟨hpcd, heofd, hiptrd, hcompliantd⟩ := drained_run hdata
  obtain ⟨hpcd', heofd', hiptrd', hcompliantd'⟩ := drained_runSelect hdata
  have hfull : ∀ b : Buf UInt8, b.iptr = bufsize → b.optr = 0 → b.pending.length = bufsize := by
    intro b hi ho
    rw [Buf.length_pending, hi, ho, Nat.sub_zero]
  have hdrained : ∀ b : Buf UInt8, b.iptr = 0 → b.pending = [] := by
    intro b hi
    rw [← List.length_eq_zero_iff, Buf.length_pending, hi, Nat.zero_sub]
  have hne : ∀ b : Buf UInt8, b.pending.length = bufsize → b.pending ≠ [] := by
    rintro b hb hnil
    rw [hnil] at hb
    exact absurd hb (by decide)
  have hto := hfull _ hiptr hoptr
  have hto' := hfull _ hiptr' hoptr'
  refine ⟨data, hdata, ⟨hto, ?_⟩, ⟨hto', ?_⟩, ⟨hdrained _ hiptrd, ?_⟩, hdrained _ hiptrd', ?_⟩
  · exact ((negotiate_never_parks.1 bothOpen _ hcompliant).1 hpc).pendingProxy (hne _ hto)
  · exact ((negotiate_never_parks.2 bothOpen _ hcompliant').1 hpc').pendingProxy (hne _ hto')
  · exact ((negotiate_never_parks.1 bothOpen _ hcompliantd).1 hpcd).toProxy heofd
  · exact ((negotiate_never_parks.2 bothOpen _ hcompliantd').1 hpcd').toProxy heofd'

end Filled

end Silksocks
