import Silksocks.Negotiate

/-! The two byte streams of the relay.  At every point of every run the bytes written to a sink and
those pending in its buffer are together the bytes read from the source.  At the end of file of the
proxy the relay drops what is pending, and it loses bytes exactly when the loop head of that
iteration asked for room to write. -/

namespace Silksocks

open StreamBuffer

/-! ### The streams of a run -/

namespace RelayCall

/-- The bytes that a call read from `fd`. -/
def received (fd : Peer) : RelayCall → List UInt8
  | .read fd' _ _ (.ok data) => if fd' = fd then data else []
  | _ => []

/-- The bytes that a call wrote to `fd`. -/
def written (fd : Peer) : RelayCall → List UInt8
  | .write fd' _ _ (.ok data) => if fd' = fd then data else []
  | _ => []

/-- The range that a call names is inside the buffer. -/
def Inside : RelayCall → Prop
  | .read _ off len _ => off + len ≤ bufsize
  | .write _ off len _ => off + len ≤ bufsize
  | _ => True

/-- A read of `fd` that reported end of file. -/
def Eof (fd : Peer) : RelayCall → Prop
  | .read fd' _ _ (.ok []) => fd' = fd
  | _ => False

end RelayCall

/-- The bytes read from `fd` so far. -/
def received (fd : Peer) (calls : List RelayCall) : List UInt8 := calls.flatMap (RelayCall.received fd)

/-- The bytes written to `fd` so far. -/
def written (fd : Peer) (calls : List RelayCall) : List UInt8 := calls.flatMap (RelayCall.written fd)

/-- Each direction carries its stream, inside its buffer. -/
structure StreamsKept (s : Relay) (calls : List RelayCall) : Prop where
  toProxy : s.toBuf.Carries bufsize (received .client calls) (written .proxy calls)
  toClient : s.frBuf.Carries bufsize (received .proxy calls) (written .client calls)
  inside : ∀ c ∈ calls, c.Inside

section Streams

variable {fd : Peer} {calls calls' : List RelayCall}

@[simp] theorem received_append :
    received fd (calls ++ calls') = received fd calls ++ received fd calls' := by
  simp [received]

@[simp] theorem written_append :
    written fd (calls ++ calls') = written fd calls ++ written fd calls' := by
  simp [written]

end Streams

namespace StreamsKept

variable {s s' : Relay} {calls new : List RelayCall}

theorem idle (h : StreamsKept s calls) (hto : s'.toBuf = s.toBuf) (hfr : s'.frBuf = s.frBuf)
    (hnone : ∀ c ∈ new, c.Inside ∧ ∀ fd, c.received fd = [] ∧ c.written fd = []) :
    StreamsKept s' (calls ++ new) := by
  have hr : ∀ fd, received fd new = [] := fun fd =>
    List.flatMap_eq_nil_iff.mpr fun c hc => ((hnone c hc).2 fd).1
  have hw : ∀ fd, written fd new = [] := fun fd =>
    List.flatMap_eq_nil_iff.mpr fun c hc => ((hnone c hc).2 fd).2
  refine ⟨?_, ?_, fun c hc => ?_⟩
  · simpa [hr, hw, hto] using h.toProxy
  · simpa [hr, hw, hfr] using h.toClient
  · exact (List.mem_append.mp hc).elim (h.inside c) fun hc => (hnone c hc).1

theorem step (h : StreamsKept s calls) (hm : s.Move s' new) : StreamsKept s' (calls ++ new) := by
  have hto := h.toProxy.within
  have hfr := h.toClient.within
  have := hto.order
  have := hto.bound
  have := hfr.order
  have := hfr.bound
  cases hm with
  | finished | noClientInput | noProxyInput | noClientOutput | noProxyOutput =>
    exact h.idle rfl rfl (by simp)
  | pollFailed | pollTimeout | polled =>
    exact h.idle rfl rfl (by simp [RelayCall.Inside, RelayCall.received, RelayCall.written])
  | clientReadFailed | proxyReadFailed | clientWriteFailed | proxyWriteFailed =>
    refine h.idle rfl rfl ?_
    simp [RelayCall.Inside, RelayCall.received, RelayCall.written]
    omega
  | clientEof hpc hin =>
    refine h.idle rfl rfl ?_
    split <;> simp [RelayCall.Inside, RelayCall.received, RelayCall.written] <;> omega
  | proxyEof =>
    refine h.idle rfl rfl ?_
    simp [RelayCall.Inside, RelayCall.received, RelayCall.written]
    omega
  | clientRead hpc hin hdata hlen =>
    refine ⟨?_, ?_, by simpa [or_imp, forall_and, RelayCall.Inside] using ⟨h.inside, by omega⟩⟩
    · simpa [received, written, RelayCall.received, RelayCall.written] using h.toProxy.fill (by omega)
    · simpa [received, written, RelayCall.received, RelayCall.written] using h.toClient
  | proxyRead hpc hin hdata hlen =>
    refine ⟨?_, ?_, by simpa [or_imp, forall_and, RelayCall.Inside] using ⟨h.inside, by omega⟩⟩
    · simpa [received, written, RelayCall.received, RelayCall.written] using h.toProxy
    · simpa [received, written, RelayCall.received, RelayCall.written] using h.toClient.fill (by omega)
  | clientWrite hpc hout hn hle =>
    refine ⟨?_, ?_, by simpa [or_imp, forall_and, RelayCall.Inside] using ⟨h.inside, by omega⟩⟩
    · simpa [received, written, RelayCall.received, RelayCall.written] using h.toProxy
    · simpa [received, written, RelayCall.received, RelayCall.written] using
        h.toClient.drain_or_rewind (by rwa [Buf.length_pending])
  | proxyWrite hpc hout hn hle =>
    -- the shutdown behind the last byte moves no byte
    rw [List.append_cons]
    refine idle ⟨?_, ?_, ?_⟩ rfl rfl ?_
    · simpa [received, written, RelayCall.received, RelayCall.written] using
        h.toProxy.drain_or_rewind (by rwa [Buf.length_pending])
    · simpa [received, written, RelayCall.received, RelayCall.written] using h.toClient
    · simpa [or_imp, forall_and, RelayCall.Inside] using ⟨h.inside, by omega⟩
    · split <;> simp [RelayCall.Inside, RelayCall.received, RelayCall.written]

end StreamsKept

theorem negotiate_streamsKept (setup : Setup) (answers : List Answer) :
    StreamsKept (negotiate setup answers).1 (negotiate setup answers).2 :=
  negotiate_induction setup ⟨.empty _, .empty _, by simp⟩
    (fun s _ a h => h.step (s.step_move a)) answers

/-- The relay preserves both byte streams: at every point of every run, in each direction, the
bytes written and those pending in the buffer are together the bytes read, and every read and
write names a range inside its buffer. -/
theorem negotiate_preserves_streams (setup : Setup) (answers : List Answer) :
    let s := (negotiate setup answers).1
    let calls := (negotiate setup answers).2
    (written .proxy calls ++ s.toBuf.pending = received .client calls ∧
      written .client calls ++ s.frBuf.pending = received .proxy calls) ∧
    (written .proxy calls <+: received .client calls ∧
      written .client calls <+: received .proxy calls) ∧
    (s.toBuf.optr ≤ s.toBuf.iptr ∧ s.toBuf.iptr ≤ bufsize) ∧
    (s.frBuf.optr ≤ s.frBuf.iptr ∧ s.frBuf.iptr ≤ bufsize) ∧
    ∀ c ∈ calls, c.Inside := by
  have h := negotiate_streamsKept setup answers
  exact ⟨⟨h.toProxy.stream, h.toClient.stream⟩, ⟨h.toProxy.isPrefix, h.toClient.isPrefix⟩,
    ⟨h.toProxy.within.order, h.toProxy.within.bound⟩,
    ⟨h.toClient.within.order, h.toClient.within.bound⟩, h.inside⟩

/-! ### End of file -/

/-- What `poll` reports is what was asked for, besides errors. -/
def RelayCall.compliant : RelayCall → Bool
  | .poll client proxy (.ready rclient rproxy) =>
    (!rclient.pollin || client.pollin) && (!rclient.pollout || client.pollout) &&
      (!rproxy.pollin || proxy.pollin) && (!rproxy.pollout || proxy.pollout)
  | _ => true

/-- Nothing is lost at the end of the relay: when a read of the proxy reported end of file, all that
was read from the proxy has been written to the client, and at the normal end all that was read
from the client has been written to the proxy. -/
structure NoLoss (s : Relay) (calls : List RelayCall) : Prop where
  toClient : (∃ c ∈ calls, c.Eof .proxy) → written .client calls = received .proxy calls
  toProxy : s.pc = .done 0 → written .proxy calls = received .client calls

/-- The step reads end of file from the proxy. -/
def Relay.ReadsProxyEof (s : Relay) (a : Answer) : Prop :=
  s.pc = .readProxy ∧ s.proxy.revents.pollin = true ∧
    a.read.map (List.take (bufsize - s.frBuf.iptr)) = .ok []

/-- Where a step of the run reads end of file from the proxy, `poll` had not been asked for room to
write to the client nor, once the client is at its end, for room to write to the proxy. -/
def EofAwaitsWrites (setup : Setup) (answers : List Answer) : Prop :=
  ∀ earlier a, earlier ++ [a] <+: answers → (negotiate setup earlier).1.ReadsProxyEof a →
    (negotiate setup earlier).1.client.events.pollout = false ∧
      ((negotiate setup earlier).1.clienteof = true →
        (negotiate setup earlier).1.proxy.events.pollout = false)

namespace Relay

/-- Until the reads of an iteration are over, the events ask for room to write exactly where bytes
are pending. -/
def AsksForWrites (s : Relay) : Prop :=
  s.pc = .readClient ∨ s.pc = .readProxy →
    (s.client.events.pollout = false ↔ s.frBuf.optr = s.frBuf.iptr) ∧
      (s.proxy.events.pollout = false ↔ s.toBuf.optr = s.toBuf.iptr)

theorem AsksForWrites.step {s s' : Relay} {new : List RelayCall} (h : s.AsksForWrites)
    (hto : s.toBuf.Within bufsize) (hm : s.Move s' new) : s'.AsksForWrites := by
  cases hm with
  | finished hpc => exact h
  | pollFailed | clientReadFailed | proxyReadFailed | clientWriteFailed | proxyWriteFailed =>
    intro hpc
    simp only [retry] at hpc
    split at hpc <;> simp at hpc
  | polled => intro _; simp [selectEvents]
  | noClientInput hpc | clientEof hpc => exact fun _ => h (.inl hpc)
  | clientRead hpc hin hdata hlen =>
    refine fun _ => ⟨(h (.inl hpc)).1, ?_⟩
    have := hto.order
    have := List.length_pos_iff.mpr hdata
    simp only [Buf.fill, Bool.true_eq_false, false_iff]
    omega
  | _ => intro hpc; simp at hpc

theorem Move.of_proxyEof {s s' : Relay} {new : List RelayCall} (hm : s.Move s' new)
    (heof : ∃ c ∈ new, c.Eof .proxy) :
    s.pc = .readProxy ∧ s.proxy.revents.pollin = true ∧
      s' = { s with pc := .done (if s.clienteof then 0 else 1) } ∧
      new = [.read .proxy s.frBuf.iptr (bufsize - s.frBuf.iptr) (.ok [])] := by
  obtain ⟨c, hc, heof⟩ := heof
  cases hm with
  | proxyEof hpc hin => exact ⟨hpc, hin, rfl, rfl⟩
  | clientEof =>
    rw [List.mem_cons] at hc
    rcases hc with rfl | hc
    · cases heof
    · split at hc
      · rw [List.mem_singleton.mp hc] at heof
        cases heof
      · cases hc
  | proxyWrite =>
    rw [List.mem_cons] at hc
    rcases hc with rfl | hc
    · cases heof
    · split at hc
      · rw [List.mem_singleton.mp hc] at heof
        cases heof
      · cases hc
  | clientRead | proxyRead =>
    rw [List.mem_singleton.mp hc] at heof
    simp_all [RelayCall.Eof]
  | finished | noClientInput | noProxyInput | noClientOutput | noProxyOutput => cases hc
  | _ =>
    rw [List.mem_singleton.mp hc] at heof
    cases heof

theorem readsProxyEof_iff {s : Relay} {a : Answer} :
    s.ReadsProxyEof a ↔ ∃ c ∈ (s.step a).2, c.Eof .proxy := by
  constructor
  · rintro ⟨hpc, hin, hr⟩
    simp [step, hpc, readProxy, hin, hr, RelayCall.Eof]
  · intro heof
    obtain ⟨hpc, hin, -, hnew⟩ := (s.step_move a).of_proxyEof heof
    refine ⟨hpc, hin, ?_⟩
    simp only [step, hpc, readProxy, hin, if_true] at hnew
    split at hnew <;> simp_all

end Relay

theorem negotiate_asksForWrites (setup : Setup) (answers : List Answer) :
    (negotiate setup answers).1.AsksForWrites := by
  refine (negotiate_induction (P := fun s calls => StreamsKept s calls ∧ s.AsksForWrites) setup
    ⟨negotiate_streamsKept setup [], fun hpc => ?_⟩ (fun s calls a h => ?_) answers).2
  · simp only [negotiateInit] at hpc
    split at hpc <;> simp at hpc
  · exact ⟨h.1.step (s.step_move a), h.2.step h.1.toProxy.within (s.step_move a)⟩

/-- What holds of a run in which no end of file comes too early: after one the relay has ended with
nothing pending for the client, and at the normal end nothing is pending for the proxy. -/
structure EndsDrained (s : Relay) (calls : List RelayCall) : Prop where
  toClient : (∃ c ∈ calls, c.Eof .proxy) → s.frBuf.optr = s.frBuf.iptr ∧ ∃ r, s.pc = .done r
  toProxy : s.pc = .done 0 → s.toBuf.optr = s.toBuf.iptr

/-- A step keeps the relay drained, unless it reads end of file too early. -/
theorem EndsDrained.step {s s' : Relay} {calls new : List RelayCall} (h : EndsDrained s calls)
    (hask : s.AsksForWrites) (hm : s.Move s' new)
    (hwait : (∃ c ∈ new, c.Eof .proxy) → s.client.events.pollout = false ∧
      (s.clienteof = true → s.proxy.events.pollout = false)) :
    EndsDrained s' (calls ++ new) := by
  by_cases heof : ∃ c ∈ new, c.Eof .proxy
  · obtain ⟨hclient, hproxy⟩ := hwait heof
    obtain ⟨hpc, -, rfl, -⟩ := hm.of_proxyEof heof
    obtain ⟨hfr, hto⟩ := hask (.inr hpc)
    refine ⟨fun _ => ⟨hfr.mp hclient, _, rfl⟩, fun hdone => hto.mp (hproxy ?_)⟩
    by_contra hno
    simp [hno] at hdone
  · have hold : (∃ c ∈ calls ++ new, c.Eof .proxy) → ∃ c ∈ calls, c.Eof .proxy := by
      rintro ⟨c, hc, hce⟩
      exact ⟨c, (List.mem_append.mp hc).resolve_right fun hn => heof ⟨c, hn, hce⟩, hce⟩
    cases hm with
    | finished hpc => exact ⟨fun he => h.toClient (hold he), h.toProxy⟩
    | proxyEof => exact absurd ⟨_, List.mem_singleton_self _, rfl⟩ heof
    | pollFailed hpc | clientReadFailed hpc | proxyReadFailed hpc | clientWriteFailed hpc
    | proxyWriteFailed hpc =>
      refine ⟨fun he => ?_, fun hdone => ?_⟩
      · obtain ⟨-, r, hr⟩ := h.toClient (hold he)
        simp [hpc] at hr
      · simp only [Relay.retry] at hdone
        split at hdone <;> simp at hdone
    | pollTimeout hpc | polled hpc | noClientInput hpc | clientEof hpc | clientRead hpc
    | noProxyInput hpc | proxyRead hpc | noClientOutput hpc | clientWrite hpc | noProxyOutput hpc
    | proxyWrite hpc =>
      refine ⟨fun he => ?_, fun hdone => by simp at hdone⟩
      obtain ⟨-, r, hr⟩ := h.toClient (hold he)
      simp [hpc] at hr

theorem endsDrained_of_awaits (setup : Setup) (answers : List Answer)
    (h : EofAwaitsWrites setup answers) :
    EndsDrained (negotiate setup answers).1 (negotiate setup answers).2 := by
  induction answers using List.reverseRecOn with
  | nil =>
    refine ⟨fun ⟨c, hc, _⟩ => (by cases hc), fun hdone => ?_⟩
    simp only [negotiate, negotiateInit, List.foldl_nil] at hdone
    split at hdone <;> simp at hdone
  | append_singleton answers a ih =>
    rw [negotiate_snoc]
    refine (ih fun earlier b hb => h earlier b (hb.trans (List.prefix_append _ _))).step
      (negotiate_asksForWrites setup answers) (Relay.step_move _ a) fun heof => ?_
    exact h answers a (List.prefix_refl _) (Relay.readsProxyEof_iff.mpr heof)

/-- The relay loses nothing at the end of the stream, at any point of a run, exactly when no read
of the proxy reports end of file in an iteration that asked `poll` for room to write to the client
or, once the client is at its end, to the proxy. -/
theorem negotiate_noLoss_iff (setup : Setup) (answers : List Answer) :
    (∀ earlier, earlier <+: answers →
      NoLoss (negotiate setup earlier).1 (negotiate setup earlier).2) ↔
    EofAwaitsWrites setup answers := by
  constructor
  · intro hall earlier a hpre hreads
    have hloss := hall _ hpre
    have heof := Relay.readsProxyEof_iff.mp hreads
    have hkept := negotiate_streamsKept setup (earlier ++ [a])
    obtain ⟨hpc, -, hs', -⟩ := (Relay.step_move _ a).of_proxyEof heof
    obtain ⟨hfr, hto⟩ := negotiate_asksForWrites setup earlier (.inr hpc)
    rw [negotiate_snoc] at hloss hkept
    refine ⟨?_, fun heofc => ?_⟩
    · obtain ⟨c, hc, hce⟩ := heof
      have hdrained := hkept.toClient.drained_iff.mp
        (hloss.toClient ⟨c, List.mem_append_right _ hc, hce⟩)
      rw [hs'] at hdrained
      exact hfr.mpr hdrained
    · have hdrained := hkept.toProxy.drained_iff.mp (hloss.toProxy (by simp [hs', heofc]))
      rw [hs'] at hdrained
      exact hto.mpr hdrained
  · intro hwait earlier hpre
    have hkept := negotiate_streamsKept setup earlier
    have hdrained := endsDrained_of_awaits setup earlier
      fun e a he => hwait e a (he.trans hpre)
    exact ⟨fun heof => hkept.toClient.drained_iff.mpr (hdrained.toClient heof).1,
      fun hdone => hkept.toProxy.drained_iff.mpr (hdrained.toProxy hdone)⟩

/-- The proxy sends one byte and closes; the client's socket is ready to take the byte when the end
of file arrives. -/
def lastByteThenEof : List Answer :=
  let idle : Revents := ⟨false, false, false, false, false⟩
  let answer := fun poll data => (⟨poll, .ok data, .ok 0⟩ : Answer)
  [answer (.ready idle { idle with pollin := true }) [],
    answer .timeout [], answer .timeout [65], answer .timeout [], answer .timeout [],
    answer (.ready { idle with pollout := true } { idle with pollin := true }) [],
    answer .timeout [], answer .timeout []]

/-- The byte is never written, although `poll` reported only what was asked for. -/
theorem negotiate_loses_byte :
    let s := (negotiate ⟨true, true, fun _ => 0, fun _ => 0⟩ lastByteThenEof).1
    let calls := (negotiate ⟨true, true, fun _ => 0, fun _ => 0⟩ lastByteThenEof).2
    calls.all RelayCall.compliant = true ∧ received .proxy calls = [65] ∧ written .client calls = [] ∧
      s.pc = .done 1 ∧ ¬ NoLoss s calls := by
  refine ⟨by decide, by decide, by decide, by decide, fun h => ?_⟩
  have heof := h.toClient ⟨_, List.getElem_mem (n := 3) (by decide), rfl⟩
  exact absurd heof (by decide)

end Silksocks
