import Silksocks.NegotiateSelect
import Silksocks.NegotiateSplice
import Silksocks.Lib.Conduit

/-! The relay in its three builds.  In each of them what `negotiate` reads and writes is what two
conduits do, one from the client to the proxy and one back, of which only the first closes its sink:
the builds differ in what they wait for and in where they keep the bytes. -/

namespace Silksocks

open StreamBuffer Conduit

/-- The two directions, each named by its source. -/
abbrev Duplex : Type := Peer → Conduit.State UInt8

def Peer.other : Peer → Peer
  | client => proxy
  | proxy => client

/-- The conduits of a relay that has `up` for the proxy and `down` for the client. -/
def duplex (clienteof proxyeof : Bool) (up down : List UInt8) : Duplex
  | .client => ⟨up, clienteof, clienteof && up.isEmpty⟩
  | .proxy => ⟨down, proxyeof, false⟩

/-- A run of the two conduits side by side. -/
abbrev DuplexRun : Duplex → List (Peer × Io UInt8) → Duplex → Prop :=
  Lts.Run (Lts.Each Conduit.Step)

/-- What a read of `fd` does. -/
def readIo (fd : Peer) : Except Errno (List UInt8) → List (Peer × Io UInt8)
  | .ok [] => [(fd, .eof)]
  | .ok data => [(fd, .recv data)]
  | .error _ => []

/-- What a write to `fd` does. -/
def writeIo (fd : Peer) : Except Errno (List UInt8) → List (Peer × Io UInt8)
  | .ok data => [(fd.other, .send data)]
  | .error _ => []

def RelayCall.ios : RelayCall → List (Peer × Io UInt8)
  | poll .. => []
  | read fd _ _ r => readIo fd r
  | write fd _ _ r => writeIo fd r
  | shutdown => [(.client, .close)]

def SelectCall.ios : SelectCall → List (Peer × Io UInt8)
  | select .. => []
  | read fd _ _ r => readIo fd r
  | write fd _ _ r => writeIo fd r
  | shutdown => [(.client, .close)]

def SpliceCall.ios : SpliceCall → List (Peer × Io UInt8)
  | poll .. => []
  | fill fd r => readIo fd r
  | drain fd r => writeIo fd r
  | shutdown => [(.client, .close)]

/-- A call that ends the relay: an error after which it does not `continue`, or a timeout. -/
def RelayCall.fails : RelayCall → Bool
  | poll _ _ (.error e) | read _ _ _ (.error e) | write _ _ _ (.error e) => e = .other
  | poll _ _ .timeout => true
  | _ => false

/-- A call that ends the relay: every error of `select`, and one of a read or a write that would not
have blocked. -/
def SelectCall.fails : SelectCall → Bool
  | select _ _ none => true
  | read _ _ _ (.error e) | write _ _ _ (.error e) => e ≠ .eagain
  | _ => false

def SpliceCall.fails : SpliceCall → Bool
  | poll _ _ (.error e) | fill _ (.error e) | drain _ (.error e) => e = .other
  | poll _ _ .timeout => true
  | _ => false

/-- Some call has failed. -/
def Failed {C : Type} (fails : C → Bool) (calls : List C) : Prop := ∃ c ∈ calls, fails c = true

/-- A socket cannot be made nonblocking, so the relay does not start. -/
def Setup.blocked (setup : Setup) : Prop := (setup.clientNonblock && setup.proxyNonblock) = false

/-- A socket cannot be made nonblocking or a pipe not be made, so the relay does not start. -/
def SpliceSetup.blocked (setup : SpliceSetup) : Prop :=
  (setup.clientNonblock && setup.proxyNonblock && setup.pipesrv && setup.pipecli) = false

section Failed

variable {C : Type} {fails : C → Bool} {c : C} {calls calls' : List C}

@[simp] theorem failed_nil : ¬ Failed fails [] := by simp [Failed]

@[simp] theorem failed_cons : Failed fails (c :: calls) ↔ fails c = true ∨ Failed fails calls := by
  simp [Failed]

theorem failed_append :
    Failed fails (calls ++ calls') ↔ Failed fails calls ∨ Failed fails calls' := by
  simp [Failed, or_and_right, exists_or]

end Failed

/-! ### What the conduits can do -/

section Duplex

variable {clienteof proxyeof : Bool} {up down data rest : List UInt8}

theorem duplex_up {clienteof' : Bool} {up' : List UInt8} {ls : List (Io UInt8)}
    (h : Lts.Run Conduit.Step ⟨up, clienteof, clienteof && up.isEmpty⟩ ls
      ⟨up', clienteof', clienteof' && up'.isEmpty⟩) :
    DuplexRun (duplex clienteof proxyeof up down) (ls.map fun l => (.client, l))
      (duplex clienteof' proxyeof up' down) := by
  have heq : duplex clienteof' proxyeof up' down = Function.update
      (duplex clienteof proxyeof up down) .client ⟨up', clienteof', clienteof' && up'.isEmpty⟩ := by
    funext d
    cases d <;> simp [duplex]
  exact heq ▸ Lts.Run.each (d := Peer.client) h

theorem duplex_down {proxyeof' : Bool} {down' : List UInt8} {ls : List (Io UInt8)}
    (h : Lts.Run Conduit.Step ⟨down, proxyeof, false⟩ ls ⟨down', proxyeof', false⟩) :
    DuplexRun (duplex clienteof proxyeof up down) (ls.map fun l => (.proxy, l))
      (duplex clienteof proxyeof' up down') := by
  have heq : duplex clienteof proxyeof' up down' = Function.update
      (duplex clienteof proxyeof up down) .proxy ⟨down', proxyeof', false⟩ := by
    funext d
    cases d <;> simp [duplex]
  exact heq ▸ Lts.Run.each (d := Peer.proxy) h

/-- A read of the client, before its end of file. -/
theorem duplex_readClient (hdata : data ≠ []) : DuplexRun (duplex false proxyeof up down)
    (readIo .client (.ok data)) (duplex false proxyeof (up ++ data) down) := by
  cases data with
  | nil => exact absurd rfl hdata
  | cons b bs => exact duplex_up (.single .recv)

/-- The end of file of the client, which is passed on at once if nothing is pending. -/
theorem duplex_clientEof {p : Prop} [Decidable p] (hp : p ↔ up = []) :
    DuplexRun (duplex false proxyeof up down)
      (readIo .client (.ok []) ++ if p then [(.client, .close)] else [])
      (duplex true proxyeof up down) := by
  cases up with
  | nil =>
    rw [if_pos (hp.mpr rfl)]
    exact duplex_up ((Lts.Run.single .eof).snoc .close)
  | cons b bs =>
    rw [if_neg fun h => List.cons_ne_nil b bs (hp.mp h), List.append_nil]
    exact duplex_up (.single .eof)

/-- A write to the proxy, with the half-close behind the last byte. -/
theorem duplex_writeProxy {p : Prop} [Decidable p] (hpending : data ++ rest ≠ [])
    (hp : p ↔ rest = [] ∧ clienteof = true) :
    DuplexRun (duplex clienteof proxyeof (data ++ rest) down)
      (writeIo .proxy (.ok data) ++ if p then [(.client, .close)] else [])
      (duplex clienteof proxyeof rest down) := by
  have hopen : (clienteof && (data ++ rest).isEmpty) = false := by
    simp [List.isEmpty_eq_false_iff.mpr hpending]
  have hsend : Lts.Run Conduit.Step ⟨data ++ rest, clienteof, clienteof && (data ++ rest).isEmpty⟩
      [.send data] ⟨rest, clienteof, false⟩ := by
    rw [hopen]
    exact .single .send
  by_cases h : p
  · obtain ⟨rfl, rfl⟩ := hp.mp h
    rw [if_pos h]
    exact duplex_up (hsend.snoc .close)
  · have hclose : (clienteof && rest.isEmpty) = false := by
      rw [Bool.eq_false_iff, Ne, Bool.and_eq_true, List.isEmpty_iff, and_comm]
      exact fun hclose => h (hp.mpr hclose)
    rw [if_neg h, List.append_nil]
    exact duplex_up (hclose ▸ hsend)

theorem duplex_readProxy (hdata : data ≠ []) : DuplexRun (duplex clienteof false up down)
    (readIo .proxy (.ok data)) (duplex clienteof false up (down ++ data)) := by
  cases data with
  | nil => exact absurd rfl hdata
  | cons b bs => exact duplex_down (.single .recv)

theorem duplex_proxyEof : DuplexRun (duplex clienteof false up down) (readIo .proxy (.ok []))
    (duplex clienteof true up down) := duplex_down (.single .eof)

theorem duplex_writeClient : DuplexRun (duplex clienteof proxyeof up (data ++ rest))
    (writeIo .client (.ok data)) (duplex clienteof proxyeof up rest) := duplex_down (.single .send)

end Duplex

/-- What a relay has done is what two conduits do, which now hold `up` and `down`.  The relay is at
its end once the source of the second one has ended or it is `broken`, and not before. -/
def Relays (clienteof : Bool) (up down : List UInt8) (ios : List (Peer × Io UInt8))
    (broken done : Prop) : Prop :=
  ∃ proxyeof, DuplexRun (fun _ => fresh) ios (duplex clienteof proxyeof up down) ∧
    (done ↔ proxyeof = true ∨ broken)

theorem relays_nil {broken done : Prop} (h : done ↔ broken) :
    Relays false [] [] [] broken done := by
  have heq : duplex false false [] [] = fun _ => fresh := by
    funext d
    cases d <;> rfl
  exact ⟨false, heq ▸ .nil, by simpa using h⟩

section Relays

variable {clienteof : Bool} {up down data rest : List UInt8} {ios : List (Peer × Io UInt8)}
  {broken failed done done' : Prop}

/-- A step of a relay that has not ended, whose calls end it if they have `failed`. -/
theorem Relays.step {clienteof' : Bool} {up' down' : List UInt8} {new : List (Peer × Io UInt8)}
    (h : Relays clienteof up down ios broken done) (hdone : ¬ done) (hend : done' ↔ failed)
    (hrun : DuplexRun (duplex clienteof false up down) new (duplex clienteof' false up' down')) :
    Relays clienteof' up' down' (ios ++ new) (broken ∨ failed) done' := by
  obtain ⟨proxyeof, h, hiff⟩ := h
  rw [hiff, not_or, Bool.not_eq_true] at hdone
  obtain ⟨rfl, hbroken⟩ := hdone
  exact ⟨false, h.append hrun, by simp [hbroken, hend]⟩

theorem Relays.clientEof (h : Relays clienteof up down ios broken done) (hdone : ¬ done)
    (hend : done' ↔ failed) (hopen : clienteof = false) {p : Prop} [Decidable p] (hp : p ↔ up = []) :
    Relays true up down (ios ++ (readIo .client (.ok []) ++ if p then [(.client, .close)] else []))
      (broken ∨ failed) done' := by
  subst hopen
  exact h.step hdone hend (duplex_clientEof hp)

theorem Relays.clientRead (h : Relays clienteof up down ios broken done) (hdone : ¬ done)
    (hend : done' ↔ failed) (hopen : clienteof = false) (hdata : data ≠ []) :
    Relays clienteof (up ++ data) down (ios ++ readIo .client (.ok data)) (broken ∨ failed) done' := by
  subst hopen
  exact h.step hdone hend (duplex_readClient hdata)

theorem Relays.proxyEof (h : Relays clienteof up down ios broken done) (hdone : ¬ done)
    (hdone' : done') :
    Relays clienteof up down (ios ++ readIo .proxy (.ok [])) (broken ∨ failed) done' := by
  obtain ⟨proxyeof, h, hiff⟩ := h
  rw [hiff, not_or, Bool.not_eq_true] at hdone
  obtain ⟨rfl, -⟩ := hdone
  exact ⟨true, h.append duplex_proxyEof, by simp [hdone']⟩

theorem Relays.proxyRead (h : Relays clienteof up down ios broken done) (hdone : ¬ done)
    (hend : done' ↔ failed) (hdata : data ≠ []) :
    Relays clienteof up (down ++ data) (ios ++ readIo .proxy (.ok data)) (broken ∨ failed) done' :=
  h.step hdone hend (duplex_readProxy hdata)

theorem Relays.clientWrite (h : Relays clienteof up down ios broken done) (hdone : ¬ done)
    (hend : done' ↔ failed) (hdown : data ++ rest = down) :
    Relays clienteof up rest (ios ++ writeIo .client (.ok data)) (broken ∨ failed) done' := by
  subst hdown
  exact h.step hdone hend duplex_writeClient

theorem Relays.proxyWrite (h : Relays clienteof up down ios broken done) (hdone : ¬ done)
    (hend : done' ↔ failed) (hup : data ++ rest = up) (hpending : up ≠ []) {p : Prop} [Decidable p]
    (hp : p ↔ rest = [] ∧ clienteof = true) :
    Relays clienteof rest down
      (ios ++ (writeIo .proxy (.ok data) ++ if p then [(.client, .close)] else []))
      (broken ∨ failed) done' := by
  subst hup
  exact h.step hdone hend (duplex_writeProxy hpending hp)

end Relays

/-! ### The build with `poll` -/

theorem flatMap_shutdown {p : Prop} [Decidable p] :
    (if p then [RelayCall.shutdown] else []).flatMap RelayCall.ios =
      if p then [(.client, .close)] else [] := by
  split <;> rfl

/-- What the relay has done so far, where `blocked` says that it could not start. -/
def Relay.RelaysSo (blocked : Prop) (s : Relay) (calls : List RelayCall) : Prop :=
  Relays s.clienteof s.toBuf.pending s.frBuf.pending (calls.flatMap RelayCall.ios)
    (blocked ∨ Failed RelayCall.fails calls) (∃ status, s.pc = .done status)

theorem Relay.not_done {s : Relay} {pc : Section} (hpc : s.pc = pc)
    (hpc' : ∀ status, pc ≠ .done status) : ¬ ∃ status, s.pc = .done status :=
  fun ⟨status, hdone⟩ => hpc' status (hpc.symm.trans hdone)

theorem Relay.retry_done {s : Relay} {e : Errno} :
    (∃ status, (s.retry e).pc = .done status) ↔ e = .other := by
  cases e <;> simp [retry]

@[simp] theorem failed_shutdown {p : Prop} [Decidable p] :
    ¬ Failed RelayCall.fails (if p then [.shutdown] else []) := by
  split <;> simp [RelayCall.fails]

theorem Relay.RelaysSo.step {blocked : Prop} {s s' : Relay} {calls new : List RelayCall}
    (h : s.RelaysSo blocked calls) (hto : s.toBuf.Within bufsize) (hfr : s.frBuf.Within bufsize)
    (hheeds : s.Heeds) (hm : s.Move s' new) : s'.RelaysSo blocked (calls ++ new) := by
  unfold RelaysSo at h ⊢
  rw [List.flatMap_append, failed_append, ← or_assoc]
  cases hm with
  | finished =>
    rw [List.flatMap_nil, List.append_nil, or_iff_left failed_nil]
    exact h
  | pollFailed hpc | clientReadFailed hpc | proxyReadFailed hpc | clientWriteFailed hpc
  | proxyWriteFailed hpc =>
    exact h.step (not_done hpc nofun) (retry_done.trans (by simp [RelayCall.fails])) .nil
  | pollTimeout hpc | polled hpc | noClientInput hpc | noProxyInput hpc | noClientOutput hpc
  | noProxyOutput hpc =>
    exact h.step (not_done hpc nofun) (by simp [RelayCall.fails]) .nil
  | clientEof hpc hin =>
    rw [List.flatMap_cons, flatMap_shutdown]
    exact h.clientEof (not_done hpc nofun) (by simp [RelayCall.fails])
      (hheeds.clientIn hpc hin).1 (Buf.pending_eq_nil hto).symm
  | clientRead hpc hin hdata hlen =>
    dsimp only
    rw [Buf.pending_fill hto.order, List.flatMap_singleton]
    exact h.clientRead (not_done hpc nofun) (by simp [RelayCall.fails])
      (hheeds.clientIn hpc hin).1 hdata
  | proxyEof hpc hin =>
    rw [List.flatMap_singleton]
    exact h.proxyEof (not_done hpc nofun) ⟨_, rfl⟩
  | proxyRead hpc hin hdata hlen =>
    dsimp only
    rw [Buf.pending_fill hfr.order, List.flatMap_singleton]
    exact h.proxyRead (not_done hpc nofun) (by simp [RelayCall.fails]) hdata
  | clientWrite hpc hout hn hle =>
    dsimp only
    rw [Buf.pending_drain_or_rewind, List.flatMap_singleton]
    exact h.clientWrite (not_done hpc nofun) (by simp [RelayCall.fails])
      (List.take_append_drop _ _)
  | proxyWrite hpc hout hn hle =>
    dsimp only
    rw [Buf.pending_drain_or_rewind, List.flatMap_cons, flatMap_shutdown]
    exact h.proxyWrite (not_done hpc nofun) (by simp [RelayCall.fails])
      (List.take_append_drop _ _) (mt (Buf.pending_eq_nil hto).mp hn.ne)
      (and_congr_left' (Buf.drop_pending_eq_nil hto hle))

/-- The relay of the build with `poll`, as long as `poll` reports what it was asked for. -/
theorem negotiate_relays (setup : Setup) (answers : List Answer)
    (h : Compliant (negotiate setup answers).2) :
    (negotiate setup answers).1.RelaysSo setup.blocked (negotiate setup answers).2 := by
  induction answers using List.reverseRecOn with
  | nil =>
    refine relays_nil ?_
    cases hstart : setup.clientNonblock && setup.proxyNonblock <;>
      simp [negotiate, negotiateInit, Setup.blocked, hstart]
  | append_singleton answers a ih =>
    rw [negotiate_snoc] at h ⊢
    have hbefore : Compliant (negotiate setup answers).2 := fun c hc =>
      h c (List.mem_append_left _ hc)
    have hkept := negotiate_streamsKept setup answers
    exact (ih hbefore).step hkept.toProxy.within hkept.toClient.within
      (negotiate_heeds setup answers hbefore) (Relay.step_move _ a)

/-! ### The build with `select` -/

theorem flatMap_selectShutdown {p : Prop} [Decidable p] :
    (if p then [SelectCall.shutdown] else []).flatMap SelectCall.ios =
      if p then [(.client, .close)] else [] := by
  split <;> rfl

@[simp] theorem failed_selectShutdown {p : Prop} [Decidable p] :
    ¬ Failed SelectCall.fails (if p then [.shutdown] else []) := by
  split <;> simp [SelectCall.fails]

namespace SelectRelay

/-- What the relay has done so far; it does not read from a client that is at its end. -/
structure RelaysSo (blocked : Prop) (s : SelectRelay) (calls : List SelectCall) : Prop where
  relays : Relays s.clienteof s.toBuf.pending s.frBuf.pending (calls.flatMap SelectCall.ios)
    (blocked ∨ Failed SelectCall.fails calls) (∃ status, s.pc = .done status)
  opened : s.pc = .readClient → s.rset.client = true → s.clienteof = false

variable {blocked : Prop} {s : SelectRelay} {calls : List SelectCall}

theorem not_done {pc : SelectSection} (hpc : s.pc = pc) (hpc' : ∀ status, pc ≠ .done status) :
    ¬ ∃ status, s.pc = .done status :=
  fun ⟨status, hdone⟩ => hpc' status (hpc.symm.trans hdone)

theorem skip_done {e : Errno} (next : SelectSection) (hnext : ∀ status, next ≠ .done status) :
    (∃ status, (s.skip e next).pc = .done status) ↔ e ≠ .eagain := by
  cases e <;> simp [skip, hnext]

theorem skip_ne_readClient {e : Errno} {next : SelectSection} (hnext : next ≠ .readClient) :
    (s.skip e next).pc ≠ .readClient := by
  rcases skip_pc (s := s) e next with h | h
  · rwa [h]
  · rw [h]
    exact SelectSection.noConfusion

theorem select_relays (h : s.RelaysSo blocked calls) (hpc : s.pc = .select)
  (r : Option (FdSet × FdSet))
    (hcompliant : ∀ c ∈ (s.select r).2, c.compliant = true) :
    (s.select r).1.RelaysSo blocked (calls ++ (s.select r).2) := by
  cases r with
  | none =>
    refine ⟨?_, SelectSection.noConfusion⟩
    rw [List.flatMap_append, failed_append, ← or_assoc]
    exact h.relays.step (not_done hpc nofun) (by simp [select, SelectCall.fails]) .nil
  | some sets =>
    obtain ⟨rset, wset⟩ := sets
    have hc := hcompliant _ (List.mem_singleton_self _)
    simp only [SelectCall.compliant, FdSet.le, selectSets, Bool.and_eq_true, Bool.or_eq_true,
      Bool.not_eq_true', decide_eq_true_eq] at hc
    refine ⟨?_, fun _ hin => ?_⟩
    · rw [List.flatMap_append, failed_append, ← or_assoc]
      exact h.relays.step (not_done hpc nofun) (by simp [select, SelectCall.fails]) .nil
    · have hin : rset.client = true := hin
      exact (hc.1.1.resolve_left (by simp [hin])).1

theorem readClient_relays (h : s.RelaysSo blocked calls) (hto : s.toBuf.Within bufsize)
    (hpc : s.pc = .readClient) (r : Except Errno (List UInt8)) :
    (s.readClient r).1.RelaysSo blocked (calls ++ (s.readClient r).2) := by
  unfold readClient
  split
  case isFalse =>
    refine ⟨?_, SelectSection.noConfusion⟩
    rw [List.flatMap_append, failed_append, ← or_assoc]
    exact h.relays.step (not_done hpc nofun) (by simp) .nil
  rename_i hin
  have hopen := h.opened hpc hin
  dsimp only
  split
  · refine ⟨?_, fun hpc' => absurd hpc' (skip_ne_readClient nofun)⟩
    rw [List.flatMap_append, failed_append, ← or_assoc]
    exact h.relays.step (not_done hpc nofun)
      ((skip_done .readProxy nofun).trans (by simp [SelectCall.fails])) .nil
  · refine ⟨?_, SelectSection.noConfusion⟩
    rw [List.flatMap_append, failed_append, ← or_assoc, List.flatMap_cons, flatMap_selectShutdown]
    exact h.relays.clientEof (not_done hpc nofun) (by simp [SelectCall.fails]) hopen
      (Buf.pending_eq_nil hto).symm
  · rename_i data hdata _
    refine ⟨?_, SelectSection.noConfusion⟩
    dsimp only
    rw [Buf.pending_fill hto.order, List.flatMap_append, failed_append, ← or_assoc,
      List.flatMap_singleton]
    exact h.relays.clientRead (not_done hpc nofun) (by simp [SelectCall.fails]) hopen
      fun hnil => hdata (hnil ▸ rfl)

theorem readProxy_relays (h : s.RelaysSo blocked calls) (hfr : s.frBuf.Within bufsize)
    (hpc : s.pc = .readProxy) (r : Except Errno (List UInt8)) :
    (s.readProxy r).1.RelaysSo blocked (calls ++ (s.readProxy r).2) := by
  unfold readProxy
  split
  case isFalse =>
    refine ⟨?_, SelectSection.noConfusion⟩
    rw [List.flatMap_append, failed_append, ← or_assoc]
    exact h.relays.step (not_done hpc nofun) (by simp) .nil
  dsimp only
  split
  · refine ⟨?_, fun hpc' => absurd hpc' (skip_ne_readClient nofun)⟩
    rw [List.flatMap_append, failed_append, ← or_assoc]
    exact h.relays.step (not_done hpc nofun)
      ((skip_done .writeClient nofun).trans (by simp [SelectCall.fails])) .nil
  · refine ⟨?_, SelectSection.noConfusion⟩
    rw [List.flatMap_append, failed_append, ← or_assoc, List.flatMap_singleton]
    exact h.relays.proxyEof (not_done hpc nofun) ⟨_, rfl⟩
  · rename_i data hdata _
    refine ⟨?_, SelectSection.noConfusion⟩
    dsimp only
    rw [Buf.pending_fill hfr.order, List.flatMap_append, failed_append, ← or_assoc,
      List.flatMap_singleton]
    exact h.relays.proxyRead (not_done hpc nofun) (by simp [SelectCall.fails])
      fun hnil => hdata (hnil ▸ rfl)

/-- A write takes no more than it was given. -/
theorem le_of_write {n nwritten : Nat} {r : Except Errno Nat} (h : r.map (min n) = .ok nwritten) :
    nwritten ≤ n := by
  cases r with
  | error e => cases h
  | ok m =>
    cases h
    exact Nat.min_le_left _ _

theorem writeClient_relays (h : s.RelaysSo blocked calls) (hpc : s.pc = .writeClient)
    (r : Except Errno Nat) :
    (s.writeClient r).1.RelaysSo blocked (calls ++ (s.writeClient r).2) := by
  unfold writeClient
  dsimp only
  split
  case isFalse =>
    refine ⟨?_, SelectSection.noConfusion⟩
    rw [List.flatMap_append, failed_append, ← or_assoc]
    exact h.relays.step (not_done hpc nofun) (by simp) .nil
  split
  · refine ⟨?_, fun hpc' => absurd hpc' (skip_ne_readClient nofun)⟩
    rw [List.flatMap_append, failed_append, ← or_assoc]
    exact h.relays.step (not_done hpc nofun)
      ((skip_done .writeProxy nofun).trans (by simp [SelectCall.fails])) .nil
  · rename_i nwritten hwrite
    refine ⟨?_, SelectSection.noConfusion⟩
    have hpending : (if (s.frBuf.drain nwritten).optr = (s.frBuf.drain nwritten).iptr then
        (s.frBuf.drain nwritten).rewind else s.frBuf.drain nwritten).pending =
          s.frBuf.pending.drop nwritten := Buf.pending_drain_or_rewind nwritten
    dsimp only
    rw [hpending, List.flatMap_append, failed_append, ← or_assoc, List.flatMap_singleton]
    exact h.relays.clientWrite (not_done hpc nofun) (by simp [SelectCall.fails])
      (List.take_append_drop _ _)

theorem writeProxy_relays (h : s.RelaysSo blocked calls) (hto : s.toBuf.Within bufsize)
    (hpc : s.pc = .writeProxy) (r : Except Errno Nat) :
    (s.writeProxy r).1.RelaysSo blocked (calls ++ (s.writeProxy r).2) := by
  unfold writeProxy
  dsimp only
  split
  case isFalse =>
    refine ⟨?_, SelectSection.noConfusion⟩
    rw [List.flatMap_append, failed_append, ← or_assoc]
    exact h.relays.step (not_done hpc nofun) (by simp) .nil
  rename_i hdue
  have hpending : s.toBuf.pending ≠ [] := mt (Buf.pending_eq_nil hto).mp (by omega)
  split
  · refine ⟨?_, fun hpc' => absurd hpc' (skip_ne_readClient nofun)⟩
    rw [List.flatMap_append, failed_append, ← or_assoc]
    exact h.relays.step (not_done hpc nofun)
      ((skip_done .select nofun).trans (by simp [SelectCall.fails])) .nil
  · rename_i nwritten hwrite
    have hempty := Buf.drop_pending_eq_nil hto (le_of_write hwrite)
    split
    · rename_i hall
      have hall : s.toBuf.optr + nwritten = s.toBuf.iptr := hall
      refine ⟨?_, SelectSection.noConfusion⟩
      have hrest := hempty.mp hall
      dsimp only
      rw [Buf.pending_rewind, List.flatMap_append, failed_append, ← or_assoc, List.flatMap_cons,
        flatMap_selectShutdown,
        ← hrest]
      exact h.relays.proxyWrite (not_done hpc nofun) (by simp [SelectCall.fails])
        (List.take_append_drop _ _) hpending
        (by simp [hrest])
    · rename_i hsome
      have hsome : s.toBuf.optr + nwritten ≠ s.toBuf.iptr := hsome
      refine ⟨?_, SelectSection.noConfusion⟩
      have hrest : ¬ (s.toBuf.pending.drop nwritten = [] ∧ s.clienteof = true) := fun hlast =>
        hsome (hempty.mpr hlast.1)
      dsimp only
      rw [Buf.pending_drain, List.flatMap_append, failed_append, ← or_assoc, List.flatMap_singleton]
      have hno : SelectCall.ios (.write .proxy s.toBuf.optr (s.toBuf.iptr - s.toBuf.optr)
          (.ok (s.toBuf.pending.take nwritten))) =
            writeIo .proxy (.ok (s.toBuf.pending.take nwritten)) ++
              if s.toBuf.pending.drop nwritten = [] ∧ s.clienteof = true then [(.client, .close)]
              else [] := by
        rw [if_neg hrest, List.append_nil]
        rfl
      rw [hno]
      exact h.relays.proxyWrite (not_done hpc nofun) (by simp [SelectCall.fails])
        (List.take_append_drop nwritten _) hpending
        Iff.rfl

theorem step_relays (h : s.RelaysSo blocked calls) (hto : s.toBuf.Within bufsize)
    (hfr : s.frBuf.Within bufsize) (a : SelectAnswer)
    (hcompliant : ∀ c ∈ (s.step a).2, c.compliant = true) :
    (s.step a).1.RelaysSo blocked (calls ++ (s.step a).2) := by
  unfold step at hcompliant ⊢
  cases hpc : s.pc with
  | select =>
    simp only [hpc] at hcompliant
    exact select_relays h hpc a.select hcompliant
  | readClient => exact readClient_relays h hto hpc a.read
  | readProxy => exact readProxy_relays h hfr hpc a.read
  | writeClient => exact writeClient_relays h hpc a.write
  | writeProxy => exact writeProxy_relays h hto hpc a.write
  | done status =>
    dsimp only
    rw [List.append_nil]
    exact h

end SelectRelay

/-- The relay of the build with `select`, as long as `select` reports what it was asked for. -/
theorem negotiateSelect_relays (setup : Setup) (answers : List SelectAnswer)
    (h : ∀ c ∈ (negotiateSelect setup answers).2, c.compliant = true) :
    (negotiateSelect setup answers).1.RelaysSo setup.blocked (negotiateSelect setup answers).2 := by
  induction answers using List.reverseRecOn with
  | nil =>
    refine ⟨relays_nil ?_, fun _ hin => ?_⟩
    · cases hstart : setup.clientNonblock && setup.proxyNonblock <;>
        simp [negotiateSelect, selectInit, Setup.blocked, hstart]
    · cases hin
  | append_singleton answers a ih =>
    rw [negotiateSelect_snoc] at h ⊢
    have hbefore : ∀ c ∈ (negotiateSelect setup answers).2, c.compliant = true := fun c hc =>
      h c (List.mem_append_left _ hc)
    obtain ⟨hdrains, -⟩ := negotiateSelect_drains setup answers hbefore
    exact SelectRelay.step_relays (ih hbefore) hdrains.toBuf.within hdrains.frBuf.within a
      fun c hc => h c (List.mem_append_right _ hc)

/-! ### The build with `splice` -/

/-- What `poll` reports is what was asked for, besides errors. -/
def SpliceCall.compliant : SpliceCall → Bool
  | .poll client proxy (.ready rclient rproxy) =>
    (!rclient.pollin || client.pollin) && (!rclient.pollout || client.pollout) &&
      (!rproxy.pollin || proxy.pollin) && (!rproxy.pollout || proxy.pollout)
  | _ => true

theorem flatMap_spliceShutdown {p : Prop} [Decidable p] :
    (if p then [SpliceCall.shutdown] else []).flatMap SpliceCall.ios =
      if p then [(.client, .close)] else [] := by
  split <;> rfl

@[simp] theorem failed_spliceShutdown {p : Prop} [Decidable p] :
    ¬ Failed SpliceCall.fails (if p then [.shutdown] else []) := by
  split <;> simp [SpliceCall.fails]

namespace SpliceRelay

/-- What the relay has done so far; it does not read from a client that is at its end. -/
structure RelaysSo (blocked : Prop) (s : SpliceRelay) (calls : List SpliceCall) : Prop where
  relays : Relays s.clienteof s.pipecli s.pipesrv (calls.flatMap SpliceCall.ios)
    (blocked ∨ Failed SpliceCall.fails calls) (∃ status, s.pc = .done status)
  opened : s.pc = .readClient → s.client.revents.pollin = true → s.clienteof = false

variable {blocked : Prop} {capacity : Nat} {s : SpliceRelay} {calls : List SpliceCall}

theorem not_done {pc : Section} (hpc : s.pc = pc) (hpc' : ∀ status, pc ≠ .done status) :
    ¬ ∃ status, s.pc = .done status :=
  fun ⟨status, hdone⟩ => hpc' status (hpc.symm.trans hdone)

theorem retry_done {e : Errno} : (∃ status, (s.retry e).pc = .done status) ↔ e = .other := by
  cases e <;> simp [retry]

theorem retry_ne_readClient (e : Errno) : (s.retry e).pc ≠ .readClient := by
  cases e <;> exact Section.noConfusion

theorem poll_relays (h : s.RelaysSo blocked calls) (hpc : s.pc = .poll) (r : PollResult)
    (hcompliant : ∀ c ∈ (s.poll r).2, c.compliant = true) :
    (s.poll r).1.RelaysSo blocked (calls ++ (s.poll r).2) := by
  cases r with
  | error e =>
    refine ⟨?_, fun hpc' => absurd hpc' (retry_ne_readClient e)⟩
    rw [List.flatMap_append, failed_append, ← or_assoc]
    exact h.relays.step (not_done hpc nofun) (retry_done.trans (by simp [poll, SpliceCall.fails])) .nil
  | timeout =>
    refine ⟨?_, Section.noConfusion⟩
    rw [List.flatMap_append, failed_append, ← or_assoc]
    exact h.relays.step (not_done hpc nofun) (by simp [poll, SpliceCall.fails]) .nil
  | ready client proxy =>
    have hc := hcompliant _ (List.mem_singleton_self _)
    simp only [SpliceCall.compliant, selectEvents, Bool.and_eq_true, Bool.or_eq_true,
      Bool.not_eq_true', decide_eq_true_eq] at hc
    refine ⟨?_, fun _ hin => ?_⟩
    · rw [List.flatMap_append, failed_append, ← or_assoc]
      exact h.relays.step (not_done hpc nofun) (by simp [poll, SpliceCall.fails]) .nil
    · have hin : client.pollin = true := hin
      exact (hc.1.1.1.resolve_left (by simp [hin])).1

theorem readClient_relays (h : s.RelaysSo blocked calls) (hcount : s.Counted capacity)
    (hpc : s.pc = .readClient) (r : Except Errno (List UInt8)) :
    (s.readClient capacity r).1.RelaysSo blocked (calls ++ (s.readClient capacity r).2) := by
  unfold readClient
  split
  case isFalse =>
    refine ⟨?_, Section.noConfusion⟩
    rw [List.flatMap_append, failed_append, ← or_assoc]
    exact h.relays.step (not_done hpc nofun) (by simp) .nil
  rename_i hin
  have hopen := h.opened hpc hin
  split
  · refine ⟨?_, fun hpc' => absurd hpc' (retry_ne_readClient _)⟩
    rw [List.flatMap_append, failed_append, ← or_assoc]
    exact h.relays.step (not_done hpc nofun) (retry_done.trans (by simp [SpliceCall.fails])) .nil
  · refine ⟨?_, Section.noConfusion⟩
    have hempty : s.npipecli = 0 ↔ s.pipecli = [] := by
      rw [hcount.npipecli, Int.natCast_eq_zero, List.length_eq_zero_iff]
    rw [List.flatMap_append, failed_append, ← or_assoc, List.flatMap_cons, flatMap_spliceShutdown]
    exact h.relays.clientEof (not_done hpc nofun) (by simp [SpliceCall.fails]) hopen hempty
  · rename_i data hdata _
    refine ⟨?_, Section.noConfusion⟩
    rw [List.flatMap_append, failed_append, ← or_assoc, List.flatMap_singleton]
    exact h.relays.clientRead (not_done hpc nofun) (by simp [SpliceCall.fails]) hopen
      fun hnil => hdata (hnil ▸ rfl)

theorem readProxy_relays (h : s.RelaysSo blocked calls) (hpc : s.pc = .readProxy)
    (r : Except Errno (List UInt8)) :
    (s.readProxy capacity r).1.RelaysSo blocked (calls ++ (s.readProxy capacity r).2) := by
  unfold readProxy
  split
  case isFalse =>
    refine ⟨?_, Section.noConfusion⟩
    rw [List.flatMap_append, failed_append, ← or_assoc]
    exact h.relays.step (not_done hpc nofun) (by simp) .nil
  split
  · refine ⟨?_, fun hpc' => absurd hpc' (retry_ne_readClient _)⟩
    rw [List.flatMap_append, failed_append, ← or_assoc]
    exact h.relays.step (not_done hpc nofun) (retry_done.trans (by simp [SpliceCall.fails])) .nil
  · refine ⟨?_, Section.noConfusion⟩
    rw [List.flatMap_append, failed_append, ← or_assoc, List.flatMap_singleton]
    exact h.relays.proxyEof (not_done hpc nofun) ⟨_, rfl⟩
  · rename_i data hdata _
    refine ⟨?_, Section.noConfusion⟩
    rw [List.flatMap_append, failed_append, ← or_assoc, List.flatMap_singleton]
    exact h.relays.proxyRead (not_done hpc nofun) (by simp [SpliceCall.fails])
      fun hnil => hdata (hnil ▸ rfl)

/-- A splice out of a pipe moves bytes from its head. -/
theorem append_of_spliceOut {pipe data : List UInt8} {r : Except Errno Nat}
    (h : spliceOut pipe r = .ok data) : data ++ pipe.drop data.length = pipe := by
  cases r with
  | error e => cases h
  | ok n =>
    cases h
    exact List.prefix_iff_eq_append.mp (List.take_prefix _ _)

theorem writeClient_relays (h : s.RelaysSo blocked calls) (hpc : s.pc = .writeClient)
    (r : Except Errno Nat) :
    (s.writeClient r).1.RelaysSo blocked (calls ++ (s.writeClient r).2) := by
  unfold writeClient
  split
  case isFalse =>
    refine ⟨?_, Section.noConfusion⟩
    rw [List.flatMap_append, failed_append, ← or_assoc]
    exact h.relays.step (not_done hpc nofun) (by simp) .nil
  split
  · refine ⟨?_, fun hpc' => absurd hpc' (retry_ne_readClient _)⟩
    rw [List.flatMap_append, failed_append, ← or_assoc]
    exact h.relays.step (not_done hpc nofun) (retry_done.trans (by simp [SpliceCall.fails])) .nil
  · rename_i data hdata
    refine ⟨?_, Section.noConfusion⟩
    rw [List.flatMap_append, failed_append, ← or_assoc, List.flatMap_singleton]
    exact h.relays.clientWrite (not_done hpc nofun) (by simp [SpliceCall.fails])
      (append_of_spliceOut hdata)

theorem writeProxy_relays (h : s.RelaysSo blocked calls) (hcount : s.Counted capacity)
    (hpc : s.pc = .writeProxy) (r : Except Errno Nat) :
    (s.writeProxy r).1.RelaysSo blocked (calls ++ (s.writeProxy r).2) := by
  unfold writeProxy
  split
  case isFalse =>
    refine ⟨?_, Section.noConfusion⟩
    rw [List.flatMap_append, failed_append, ← or_assoc]
    exact h.relays.step (not_done hpc nofun) (by simp) .nil
  rename_i hdue
  split
  · refine ⟨?_, fun hpc' => absurd hpc' (retry_ne_readClient _)⟩
    rw [List.flatMap_append, failed_append, ← or_assoc]
    exact h.relays.step (not_done hpc nofun) (retry_done.trans (by simp [SpliceCall.fails])) .nil
  · rename_i data hdata
    refine ⟨?_, Section.noConfusion⟩
    have hpending : s.pipecli ≠ [] := by
      rintro hnil
      have := hcount.npipecli
      rw [hnil, List.length_nil] at this
      omega
    have hempty : s.npipecli - data.length = 0 ↔ s.pipecli.drop data.length = [] := by
      rw [(count_spliceOut hcount.npipecli hcount.pipecli hdata).1, Int.natCast_eq_zero,
        List.length_eq_zero_iff]
    rw [List.flatMap_append, failed_append, ← or_assoc, List.flatMap_cons, flatMap_spliceShutdown]
    exact h.relays.proxyWrite (not_done hpc nofun) (by simp [SpliceCall.fails])
      (append_of_spliceOut hdata) hpending
      (and_congr_left' hempty)

theorem step_relays (h : s.RelaysSo blocked calls) (hcount : s.Counted capacity) (a : SpliceAnswer)
    (hcompliant : ∀ c ∈ (s.step capacity a).2, c.compliant = true) :
    (s.step capacity a).1.RelaysSo blocked (calls ++ (s.step capacity a).2) := by
  unfold step at hcompliant ⊢
  cases hpc : s.pc with
  | poll =>
    simp only [hpc] at hcompliant
    exact poll_relays h hpc a.poll hcompliant
  | readClient => exact readClient_relays h hcount hpc a.readClient
  | readProxy => exact readProxy_relays h hpc a.readProxy
  | writeClient => exact writeClient_relays h hpc a.writeClient
  | writeProxy => exact writeProxy_relays h hcount hpc a.writeProxy
  | done status =>
    dsimp only
    rw [List.append_nil]
    exact h

end SpliceRelay

/-- The relay of the build with `splice`, as long as `poll` reports what it was asked for. -/
theorem negotiateSplice_relays (capacity : Nat) (setup : SpliceSetup) (answers : List SpliceAnswer)
    (h : ∀ c ∈ (negotiateSplice capacity setup answers).2, c.compliant = true) :
    (negotiateSplice capacity setup answers).1.RelaysSo setup.blocked
      (negotiateSplice capacity setup answers).2 := by
  induction answers using List.reverseRecOn with
  | nil =>
    refine ⟨relays_nil ?_, fun _ hin => ?_⟩
    · cases hstart : setup.clientNonblock && setup.proxyNonblock && setup.pipesrv &&
        setup.pipecli <;> simp [negotiateSplice, spliceInit, SpliceSetup.blocked, hstart]
    · cases hin
  | append_singleton answers a ih =>
    rw [negotiateSplice_snoc] at h ⊢
    have hbefore : ∀ c ∈ (negotiateSplice capacity setup answers).2, c.compliant = true :=
      fun c hc => h c (List.mem_append_left _ hc)
    exact SpliceRelay.step_relays (ih hbefore) (negotiateSplice_counted capacity setup answers) a
      fun c hc => h c (List.mem_append_right _ hc)

/-! ### All builds -/

/-- In all three builds, at every point of every run, what the relay has read and written is a run
of the two conduits.  They hold what is in its buffers or pipes, and the first one has closed its
sink if its source has ended and nothing is pending.  The relay is at its end if and only if the
source of the second one has ended, a call has failed or timed out, or it could not start. -/
theorem negotiate_builds_refine :
    (∀ setup answers, Compliant (negotiate setup answers).2 →
      let s := (negotiate setup answers).1
      Relays s.clienteof s.toBuf.pending s.frBuf.pending
        ((negotiate setup answers).2.flatMap RelayCall.ios)
        (setup.blocked ∨ Failed RelayCall.fails (negotiate setup answers).2)
        (∃ status, s.pc = .done status)) ∧
    (∀ setup answers, (∀ c ∈ (negotiateSelect setup answers).2, c.compliant = true) →
      let s := (negotiateSelect setup answers).1
      Relays s.clienteof s.toBuf.pending s.frBuf.pending
        ((negotiateSelect setup answers).2.flatMap SelectCall.ios)
        (setup.blocked ∨ Failed SelectCall.fails (negotiateSelect setup answers).2)
        (∃ status, s.pc = .done status)) ∧
    (∀ capacity setup answers,
      (∀ c ∈ (negotiateSplice capacity setup answers).2, c.compliant = true) →
      let s := (negotiateSplice capacity setup answers).1
      Relays s.clienteof s.pipecli s.pipesrv
        ((negotiateSplice capacity setup answers).2.flatMap SpliceCall.ios)
        (setup.blocked ∨ Failed SpliceCall.fails (negotiateSplice capacity setup answers).2)
        (∃ status, s.pc = .done status)) := by
  refine ⟨negotiate_relays, fun setup answers h => ?_, fun capacity setup answers h => ?_⟩
  · exact (negotiateSelect_relays setup answers h).relays
  · exact (negotiateSplice_relays capacity setup answers h).relays

/-! ### A conversation -/

/-- The client sends a byte and closes its side, the proxy answers with a byte and closes. -/
def conversation : List Answer :=
  let input : Revents := { noEvents with pollin := true }
  let output : Revents := { noEvents with pollout := true }
  [(input, noEvents, [65]), (input, output, []), (noEvents, input, [66]), (output, noEvents, []),
    (noEvents, input, [])].flatMap fun (client, proxy, data) =>
      List.replicate 5 ⟨.ready client proxy, .ok data, .ok 1⟩

def conversationSelect : List SelectAnswer :=
  [(⟨true, false⟩, [65]), (⟨true, false⟩, []), (⟨false, true⟩, [66]),
    (⟨false, true⟩, [])].flatMap fun (rset, data) =>
      List.replicate 5 ⟨some (rset, ⟨false, false⟩), .ok data, .ok 1⟩

def conversationSplice : List SpliceAnswer :=
  conversation.map fun a => ⟨a.poll, a.read, a.read, a.write, a.write⟩

/-- What is read and written then. -/
def conversationIos : List (Peer × Io UInt8) :=
  [(.client, .recv [65]), (.client, .eof), (.client, .send [65]), (.client, .close),
    (.proxy, .recv [66]), (.proxy, .send [66]), (.proxy, .eof)]

/-- With `select`, what has been read is written in the same round. -/
def conversationSelectIos : List (Peer × Io UInt8) :=
  [(.client, .recv [65]), (.client, .send [65]), (.client, .eof), (.client, .close),
    (.proxy, .recv [66]), (.proxy, .send [66]), (.proxy, .eof)]

theorem negotiate_builds_refine_conversation :
    Relays true [] [] conversationIos
      (bothOpen.blocked ∨ Failed RelayCall.fails (negotiate bothOpen conversation).2)
      (∃ status, Section.done 0 = .done status) ∧
    Relays true [] [] conversationSelectIos
      (bothOpen.blocked ∨ Failed SelectCall.fails (negotiateSelect bothOpen conversationSelect).2)
      (∃ status, SelectSection.done 0 = .done status) ∧
    Relays true [] [] conversationIos
      (SpliceSetup.blocked ⟨true, true, true, true⟩ ∨ Failed SpliceCall.fails
        (negotiateSplice 16 ⟨true, true, true, true⟩ conversationSplice).2)
      (∃ status, Section.done 0 = .done status) :=
  ⟨negotiate_builds_refine.1 bothOpen conversation (by decide),
    negotiate_builds_refine.2.1 bothOpen conversationSelect (by decide),
    negotiate_builds_refine.2.2 16 ⟨true, true, true, true⟩ conversationSplice (by decide)⟩

/-! ### What is conveyed -/

/-- What a relay that holds `up` and `down` has done: each direction carried its stream, and only
the proxy was shut down, last, when all that was read from the client had been written to it. -/
structure Conveyed (up down : List UInt8) (ios : List (Peer × Io UInt8)) : Prop where
  toProxy : Carried up (Lts.only .client ios)
  toClient : Carried down (Lts.only .proxy ios)
  closes : .close ∈ Lts.only .client ios ↔ .eof ∈ Lts.only .client ios ∧ up = []
  stays : .close ∉ Lts.only .proxy ios

theorem Relays.conveyed {clienteof : Bool} {up down : List UInt8} {ios : List (Peer × Io UInt8)}
    {broken done : Prop} (h : Relays clienteof up down ios broken done) : Conveyed up down ios := by
  obtain ⟨proxyeof, hrun, -⟩ := h
  have hup := hrun.component .client
  have hdown := hrun.component .proxy
  refine ⟨carried hup, carried hdown, ?_, ?_⟩
  · rw [← (closed_iff hup).1, ← ended_iff hup]
    simp [duplex]
  · rw [← (closed_iff hdown).1]
    simp [duplex]

/-- In all three builds, at every point of every run, each direction has carried its stream, and
the proxy was shut down if and only if the client is at its end with nothing pending, once, behind
all that was read from the client. -/
theorem negotiate_builds_convey :
    (∀ setup answers, Compliant (negotiate setup answers).2 →
      Conveyed (negotiate setup answers).1.toBuf.pending (negotiate setup answers).1.frBuf.pending
        ((negotiate setup answers).2.flatMap RelayCall.ios)) ∧
    (∀ setup answers, (∀ c ∈ (negotiateSelect setup answers).2, c.compliant = true) →
      Conveyed (negotiateSelect setup answers).1.toBuf.pending
        (negotiateSelect setup answers).1.frBuf.pending
        ((negotiateSelect setup answers).2.flatMap SelectCall.ios)) ∧
    (∀ capacity setup answers,
      (∀ c ∈ (negotiateSplice capacity setup answers).2, c.compliant = true) →
      Conveyed (negotiateSplice capacity setup answers).1.pipecli
        (negotiateSplice capacity setup answers).1.pipesrv
        ((negotiateSplice capacity setup answers).2.flatMap SpliceCall.ios)) := by
  refine ⟨fun setup answers h => ?_, fun setup answers h => ?_, fun capacity setup answers h => ?_⟩
  · exact (negotiate_relays setup answers h).conveyed
  · exact (negotiateSelect_relays setup answers h).relays.conveyed
  · exact (negotiateSplice_relays capacity setup answers h).relays.conveyed

theorem negotiate_builds_convey_conversation :
    Conveyed [] [] conversationIos ∧ Conveyed [] [] conversationSelectIos ∧
      Conveyed [] [] conversationIos :=
  ⟨negotiate_builds_convey.1 bothOpen conversation (by decide),
    negotiate_builds_convey.2.1 bothOpen conversationSelect (by decide),
    negotiate_builds_convey.2.2 16 ⟨true, true, true, true⟩ conversationSplice (by decide)⟩

end Silksocks
