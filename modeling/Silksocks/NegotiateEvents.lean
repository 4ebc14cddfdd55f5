import Silksocks.NegotiateStreams

/-! What the relay does with the events that `poll` reports, as long as these are such as it asked
for.  The end of file of the client is passed on to the proxy once, behind the last byte.  A round
of the loop tries a read or a write unless nothing but an error was reported: then the relay asks
`poll` again and again. -/

namespace Silksocks

open StreamBuffer

namespace Relay

/-- What `poll` reported was asked for, as seen by the sections that still look at it. -/
structure Heeds (s : Relay) : Prop where
  clientIn : s.pc = .readClient → s.client.revents.pollin = true →
    s.clienteof = false ∧ s.toBuf.iptr < bufsize
  proxyIn : s.pc = .readClient ∨ s.pc = .readProxy → s.proxy.revents.pollin = true →
    s.frBuf.iptr < bufsize
  clientOut : s.pc = .readClient ∨ s.pc = .readProxy ∨ s.pc = .writeClient →
    s.client.revents.pollout = true → s.frBuf.optr < s.frBuf.iptr
  proxyOut : s.pc = .readClient ∨ s.pc = .readProxy ∨ s.pc = .writeClient ∨ s.pc = .writeProxy →
    s.proxy.revents.pollout = true → s.toBuf.optr < s.toBuf.iptr

theorem heeds_of_idle {s : Relay} (h : s.pc = .poll ∨ ∃ status, s.pc = .done status) : s.Heeds := by
  constructor <;> rcases h with h | ⟨status, h⟩ <;> simp [h]

theorem retry_idle (s : Relay) (e : Errno) :
    (s.retry e).pc = .poll ∨ ∃ status, (s.retry e).pc = .done status := by
  unfold retry
  by_cases he : e = .other
  · exact .inr ⟨1, by simp [he]⟩
  · exact .inl (by simp [he])

theorem Heeds.step {s s' : Relay} {new : List RelayCall} (h : s.Heeds)
    (hto : s.toBuf.Within bufsize) (hfr : s.frBuf.Within bufsize) (hm : s.Move s' new)
    (hcompliant : ∀ c ∈ new, c.compliant = true) : s'.Heeds := by
  have := hto.order
  have := hfr.order
  cases hm with
  | finished hpc => exact h
  | pollFailed | clientReadFailed | proxyReadFailed | clientWriteFailed | proxyWriteFailed =>
    exact heeds_of_idle (retry_idle _ _)
  | pollTimeout | proxyEof => exact heeds_of_idle (.inr ⟨_, rfl⟩)
  | noProxyOutput | proxyWrite => exact heeds_of_idle (.inl rfl)
  | polled hpc client proxy =>
    have hc := hcompliant _ (List.mem_singleton_self _)
    simp only [RelayCall.compliant, selectEvents, Bool.and_eq_true, Bool.or_eq_true,
      Bool.not_eq_true', decide_eq_true_eq] at hc
    obtain ⟨⟨⟨hcin, hcout⟩, hpin⟩, hpout⟩ := hc
    constructor <;> intro _ hr <;> simp only [selectEvents] at hr ⊢
    · simpa [hr] using hcin
    · simpa [hr] using hpin
    · have := hcout.resolve_left (by simp [hr])
      omega
    · have := hpout.resolve_left (by simp [hr])
      omega
  | noClientInput hpc | clientEof hpc =>
    exact ⟨fun hpc' => by simp at hpc', fun _ => h.proxyIn (.inl hpc),
      fun _ => h.clientOut (.inl hpc), fun _ => h.proxyOut (.inl hpc)⟩
  | clientRead hpc =>
    refine ⟨fun hpc' => by simp at hpc', fun _ => h.proxyIn (.inl hpc),
      fun _ => h.clientOut (.inl hpc), fun _ hr => ?_⟩
    have := h.proxyOut (.inl hpc) hr
    simp only [Buf.fill]
    omega
  | noProxyInput hpc =>
    exact ⟨fun hpc' => by simp at hpc', fun hpc' => by simp at hpc',
      fun _ => h.clientOut (.inr (.inl hpc)), fun _ => h.proxyOut (.inr (.inl hpc))⟩
  | proxyRead hpc =>
    refine ⟨fun hpc' => by simp at hpc', fun hpc' => by simp at hpc', fun _ hr => ?_,
      fun _ => h.proxyOut (.inr (.inl hpc))⟩
    have := h.clientOut (.inr (.inl hpc)) hr
    simp only [Buf.fill]
    omega
  | noClientOutput hpc | clientWrite hpc =>
    exact ⟨fun hpc' => by simp at hpc', fun hpc' => by simp at hpc', fun hpc' => by simp at hpc',
      fun _ => h.proxyOut (.inr (.inr (.inl hpc)))⟩

end Relay

/-- All answers of `poll` so far were compliant. -/
def Compliant (calls : List RelayCall) : Prop := ∀ c ∈ calls, c.compliant = true

instance (calls : List RelayCall) : Decidable (Compliant calls) :=
  inferInstanceAs (Decidable (∀ c ∈ calls, c.compliant = true))

theorem negotiate_heeds (setup : Setup) (answers : List Answer)
    (h : Compliant (negotiate setup answers).2) : (negotiate setup answers).1.Heeds := by
  induction answers using List.reverseRecOn with
  | nil =>
    apply Relay.heeds_of_idle
    simp only [negotiate, negotiateInit, List.foldl_nil]
    split
    · exact .inl rfl
    · exact .inr ⟨1, rfl⟩
  | append_singleton answers a ih =>
    rw [negotiate_snoc] at h ⊢
    have hkept := negotiate_streamsKept setup answers
    exact (ih fun c hc => h c (List.mem_append_left _ hc)).step hkept.toProxy.within
      hkept.toClient.within (Relay.step_move _ a) fun c hc => h c (List.mem_append_right _ hc)

/-! ### The half-close -/

namespace RelayCall

/-- A read from the client or a write to the proxy. -/
def upward : RelayCall → Bool
  | .read .client _ _ _ => true
  | .write .proxy _ _ _ => true
  | _ => false

def isShutdown : RelayCall → Bool
  | .shutdown => true
  | _ => false

theorem Eof.upward {c : RelayCall} (h : c.Eof .client) : c.upward = true := by
  unfold Eof at h
  split at h
  · subst h
    rfl
  · cases h

end RelayCall

theorem countP_shutdown {calls : List RelayCall} (h : .shutdown ∉ calls) :
    calls.countP RelayCall.isShutdown = 0 := by
  rw [List.countP_eq_zero]
  intro c hc hs
  cases c with
  | shutdown => exact h hc
  | _ => cases hs

/-- The proxy was shut down once, behind the end of file and the last byte of the client. -/
def HalfClosed (calls : List RelayCall) : Prop :=
  ∃ before after, calls = before ++ .shutdown :: after ∧ .shutdown ∉ before ∧
    (∃ c ∈ before, c.Eof .client) ∧ written .proxy before = received .client before ∧
    ∀ c ∈ after, c ≠ .shutdown ∧ c.upward = false

theorem HalfClosed.append {calls new : List RelayCall} (h : HalfClosed calls)
    (hnew : ∀ c ∈ new, c ≠ .shutdown ∧ c.upward = false) : HalfClosed (calls ++ new) := by
  obtain ⟨before, after, rfl, hbefore, heof, hall, hafter⟩ := h
  refine ⟨before, after ++ new, by simp, hbefore, heof, hall, fun c hc => ?_⟩
  exact (List.mem_append.mp hc).elim (hafter c) (hnew c)

/-- The proxy has been shut down exactly when the client is at its end and nothing is pending. -/
structure ClosesOnce (s : Relay) (calls : List RelayCall) : Prop where
  eof : s.clienteof = true ↔ ∃ c ∈ calls, c.Eof .client
  closed : s.clienteof = true → s.toBuf.optr = s.toBuf.iptr → HalfClosed calls
  opened : (s.clienteof = true → s.toBuf.optr ≠ s.toBuf.iptr) → .shutdown ∉ calls

namespace ClosesOnce

variable {s s' : Relay} {calls new : List RelayCall}

theorem idle (h : ClosesOnce s calls) (heof : s'.clienteof = s.clienteof)
    (hto : s'.toBuf = s.toBuf) (hnew : ∀ c ∈ new, c ≠ .shutdown ∧ c.upward = false) :
    ClosesOnce s' (calls ++ new) := by
  refine ⟨?_, fun he hd => ?_, fun hopen hmem => ?_⟩
  · rw [heof, h.eof]
    refine ⟨fun ⟨c, hc, hce⟩ => ⟨c, List.mem_append_left _ hc, hce⟩, fun ⟨c, hc, hce⟩ => ?_⟩
    refine ⟨c, (List.mem_append.mp hc).resolve_right fun hn => ?_, hce⟩
    simpa [hce.upward] using (hnew c hn).2
  · rw [heof] at he
    rw [hto] at hd
    exact (h.closed he hd).append hnew
  · rw [heof, hto] at hopen
    rcases List.mem_append.mp hmem with hmem | hmem
    · exact h.opened hopen hmem
    · exact (hnew _ hmem).1 rfl

theorem busy (h : ClosesOnce s calls) (heof : s'.clienteof = s.clienteof)
    (hopen : s.clienteof = true → s.toBuf.optr ≠ s.toBuf.iptr)
    (hopen' : s'.clienteof = true → s'.toBuf.optr ≠ s'.toBuf.iptr)
    (hnew : ∀ c ∈ new, c ≠ .shutdown ∧ ¬ c.Eof .client) : ClosesOnce s' (calls ++ new) := by
  refine ⟨?_, fun he hd => absurd hd (hopen' he), fun _ hmem => ?_⟩
  · rw [heof, h.eof]
    refine ⟨fun ⟨c, hc, hce⟩ => ⟨c, List.mem_append_left _ hc, hce⟩, fun ⟨c, hc, hce⟩ => ?_⟩
    exact ⟨c, (List.mem_append.mp hc).resolve_right fun hn => (hnew c hn).2 hce, hce⟩
  · rcases List.mem_append.mp hmem with hmem | hmem
    · exact h.opened hopen hmem
    · exact (hnew _ hmem).1 rfl

theorem step (h : ClosesOnce s calls) (hkept : StreamsKept s calls) (hheeds : s.Heeds)
    (hm : s.Move s' new) : ClosesOnce s' (calls ++ new) := by
  have hkept' := hkept.step hm
  cases hm with
  | finished | noClientInput | noProxyInput | noClientOutput | noProxyOutput =>
    exact h.idle rfl rfl (by simp)
  | pollFailed | pollTimeout | polled | proxyReadFailed | proxyEof | proxyRead
  | clientWriteFailed | clientWrite =>
    exact h.idle rfl rfl (by simp [RelayCall.upward])
  | clientReadFailed hpc hin e =>
    have hno := (hheeds.clientIn hpc hin).1
    exact h.busy rfl (by simp [hno]) (by simp [Relay.retry, hno]) (by simp [RelayCall.Eof])
  | clientRead hpc hin hdata =>
    have hno := (hheeds.clientIn hpc hin).1
    refine h.busy rfl (by simp [hno]) (by simp [hno]) ?_
    simp [RelayCall.Eof, hdata]
  | proxyWriteFailed hpc hout hn e =>
    have hne : s.toBuf.optr ≠ s.toBuf.iptr := by omega
    exact h.busy rfl (fun _ => hne) (fun _ => hne) (by simp [RelayCall.Eof])
  | clientEof hpc hin =>
    have hno := (hheeds.clientIn hpc hin).1
    have hopened := h.opened (by simp [hno])
    set eof := RelayCall.read .client s.toBuf.iptr (bufsize - s.toBuf.iptr) (.ok []) with heof
    have hread : ∃ c ∈ calls ++ [eof], c.Eof .client := ⟨eof, by simp, by simp [heof, RelayCall.Eof]⟩
    refine ⟨⟨fun _ => ⟨eof, by simp, by simp [heof, RelayCall.Eof]⟩, fun _ => rfl⟩,
      fun _ hd => ?_, fun hopen => ?_⟩
    · rw [if_pos hd]
      refine ⟨calls ++ [eof], [], by simp, by simp [hopened, heof], hread, ?_, by simp⟩
      simpa [received, written, RelayCall.received, RelayCall.written, heof] using
        hkept.toProxy.drained_iff.mpr hd
    · rw [if_neg (hopen rfl)]
      simp [hopened, heof]
  | @proxyWrite hpc hout hn n hle =>
    have hne : s.toBuf.optr ≠ s.toBuf.iptr := by omega
    have hopened := h.opened fun _ => hne
    by_cases hlast : s.toBuf.optr + n = s.toBuf.iptr ∧ s.clienteof = true
    · rw [if_pos hlast, if_pos hlast.1] at hkept' ⊢
      set write := RelayCall.write .proxy s.toBuf.optr (s.toBuf.iptr - s.toBuf.optr)
        (.ok (s.toBuf.pending.take n)) with hwrite
      obtain ⟨eof, heof, hce⟩ := h.eof.mp hlast.2
      refine ⟨⟨fun _ => ⟨eof, by simp [heof], hce⟩, fun _ => hlast.2⟩, fun _ _ => ?_,
        fun hopen => absurd rfl (hopen hlast.2)⟩
      refine ⟨calls ++ [write], [], by simp, by simp [hopened, hwrite], ⟨eof, by simp [heof], hce⟩,
        ?_, by simp⟩
      -- what the step has left in the buffer is nothing, and the shutdown moves no byte
      have hdrained := hkept'.toProxy.drained_iff.mpr rfl
      simpa [received, written, RelayCall.received, RelayCall.written] using hdrained
    · rw [if_neg hlast]
      refine h.busy rfl (fun _ => hne) (fun hc => ?_) (by simp [RelayCall.Eof])
      have hn' : s.toBuf.optr + n ≠ s.toBuf.iptr := fun hall => hlast ⟨hall, hc⟩
      rw [if_neg hn']
      exact hn'

end ClosesOnce

theorem negotiate_closesOnce (setup : Setup) (answers : List Answer)
    (h : Compliant (negotiate setup answers).2) :
    ClosesOnce (negotiate setup answers).1 (negotiate setup answers).2 := by
  induction answers using List.reverseRecOn with
  | nil =>
    constructor <;> simp [negotiate, negotiateInit]
  | append_singleton answers a ih =>
    rw [negotiate_snoc] at h ⊢
    have hbefore : Compliant (negotiate setup answers).2 := fun c hc =>
      h c (List.mem_append_left _ hc)
    exact (ih hbefore).step (negotiate_streamsKept setup answers)
      (negotiate_heeds setup answers hbefore) (Relay.step_move _ a)

/-- The end of file of the client is passed on to the proxy at most once, only behind the end of
file and the last byte, with no write to the proxy and no read from the client after it; and no
loop head finds the client at its end with nothing pending and the proxy not shut down. -/
theorem negotiate_halfCloses_once (setup : Setup) (answers : List Answer)
    (h : Compliant (negotiate setup answers).2) :
    let s := (negotiate setup answers).1
    let calls := (negotiate setup answers).2
    calls.countP RelayCall.isShutdown ≤ 1 ∧
    (∀ before after, calls = before ++ .shutdown :: after →
      (∃ c ∈ before, c.Eof .client) ∧ written .proxy before = received .client before ∧
        ∀ c ∈ after, c.upward = false) ∧
    (s.pc = .poll → (∃ c ∈ calls, c.Eof .client) → s.toBuf.optr = s.toBuf.iptr →
      .shutdown ∈ calls) := by
  have hinv := negotiate_closesOnce setup answers h
  have hopen : RelayCall.shutdown ∉ (negotiate setup answers).2 ∨
      HalfClosed (negotiate setup answers).2 := by
    by_cases hc : (negotiate setup answers).1.clienteof = true →
        (negotiate setup answers).1.toBuf.optr ≠ (negotiate setup answers).1.toBuf.iptr
    · exact .inl (hinv.opened hc)
    · rw [Classical.not_imp, not_not] at hc
      exact .inr (hinv.closed hc.1 hc.2)
  refine ⟨?_, fun before after hcalls => ?_, fun _ heof hd => ?_⟩
  · rcases hopen with hnone | ⟨before, after, hcalls, hbefore, -, -, hafter⟩
    · rw [countP_shutdown hnone]
      exact Nat.zero_le 1
    · have hnone : RelayCall.shutdown ∉ after := fun hmem => (hafter _ hmem).1 rfl
      rw [hcalls, List.countP_append, List.countP_cons, countP_shutdown hbefore,
        countP_shutdown hnone]
      decide
  · rcases hopen with hnone | ⟨before', after', hcalls', hbefore, heof, hall, hafter⟩
    · exact absurd (hcalls ▸ by simp) hnone
    · rw [hcalls] at hcalls'
      have hnot : RelayCall.shutdown ∉ after' := fun hmem => (hafter _ hmem).1 rfl
      obtain ⟨rfl, -, rfl⟩ := (List.append_cons_inj_of_notMem hbefore hnot).mp hcalls'.symm
      exact ⟨heof, hall, fun c hc => (hafter c hc).2⟩
  · obtain ⟨before, after, hcalls, -⟩ := hinv.closed (hinv.eof.mpr heof) hd
    rw [hcalls]
    simp

def noEvents : Revents := ⟨false, false, false, false, false⟩

/-- The client sends one byte and closes; the byte is written to the proxy in the second round. -/
def byteThenClose : List Answer :=
  let input : Revents := { noEvents with pollin := true }
  let output : Revents := { noEvents with pollout := true }
  let round := fun client proxy data n =>
    ([⟨.ready client proxy, .ok [], .ok 0⟩, ⟨.timeout, .ok data, .ok 0⟩, ⟨.timeout, .ok [], .ok 0⟩,
      ⟨.timeout, .ok [], .ok 0⟩, ⟨.timeout, .ok [], .ok n⟩] : List Answer)
  round input noEvents [65] 0 ++ round input output [] 1

theorem negotiate_halfCloses_once_byte :
    let calls := (negotiate ⟨true, true, fun _ => 0, fun _ => 0⟩ byteThenClose).2
    written .proxy calls = [65] ∧ .shutdown ∈ calls ∧ calls.countP RelayCall.isShutdown ≤ 1 := by
  have h := negotiate_halfCloses_once ⟨true, true, fun _ => 0, fun _ => 0⟩ byteThenClose (by decide)
  exact ⟨by decide, h.2.2 (by decide) ⟨_, List.getElem_mem (n := 3) (by decide), rfl⟩ (by decide),
    h.1⟩

/-! ### Rounds of the loop -/

/-- An attempt to read or to write. -/
def RelayCall.isAttempt : RelayCall → Bool
  | .read _ _ _ _ => true
  | .write _ _ _ _ => true
  | _ => false

/-- Some bit is set, as in a `pollfd` that `poll` counts. -/
def Revents.any (r : Revents) : Bool :=
  r.pollin || r.pollout || r.pollerr || r.pollhup || r.pollnval

/-- Some bit is set that does not report an error. -/
def Revents.ready (r : Revents) : Bool := r.pollin || r.pollout

namespace Relay

/-- The sections that are left of a round. -/
def sections : Relay → List Answer → Relay × List RelayCall
  | s, [] => (s, [])
  | s, a :: as =>
    match s.pc with
    | .poll => (s, [])
    | .done _ => (s, [])
    | _ => ((sections (s.step a).1 as).1, (s.step a).2 ++ (sections (s.step a).1 as).2)

/-- A round of the loop: `poll`, and the sections up to the next loop head or the end. -/
def round (s : Relay) (r : PollResult) (as : List Answer) : Relay × List RelayCall :=
  ((sections (s.poll r).1 as).1, (s.poll r).2 ++ (sections (s.poll r).1 as).2)

theorem left_step {s s' : Relay} {new : List RelayCall} (hm : s.Move s' new)
    (hleft : 0 < s.pc.left) : s'.pc.left < s.pc.left := by
  cases hm with
  | finished hpc | pollFailed hpc | pollTimeout hpc | polled hpc => simp [hpc] at hleft
  | clientReadFailed hpc | proxyReadFailed hpc | clientWriteFailed hpc | proxyWriteFailed hpc =>
    rcases retry_idle s ‹_› with h | ⟨status, h⟩ <;> simp [hpc, h]
  | noClientInput hpc | clientEof hpc | clientRead hpc | noProxyInput hpc | proxyEof hpc
  | proxyRead hpc | noClientOutput hpc | clientWrite hpc | noProxyOutput hpc | proxyWrite hpc =>
    simp [hpc]

theorem sections_of_idle {s : Relay} (h : s.pc.left = 0) (as : List Answer) :
    s.sections as = (s, []) := by
  cases as with
  | nil => rfl
  | cons a as => rcases Section.left_eq_zero.mp h with h | ⟨status, h⟩ <;> simp [sections, h]

theorem sections_of_left {s : Relay} (h : 0 < s.pc.left) (a : Answer) (as : List Answer) :
    s.sections (a :: as) =
      ((sections (s.step a).1 as).1, (s.step a).2 ++ (sections (s.step a).1 as).2) := by
  cases hpc : s.pc <;> simp [hpc] at h <;> simp [sections, hpc]

theorem sections_end (as : List Answer) : ∀ s : Relay, s.pc.left ≤ as.length →
    (s.sections as).1.pc.left = 0 := by
  induction as with
  | nil => exact fun s h => Nat.le_zero.mp h
  | cons a as ih =>
    intro s h
    rcases Nat.eq_zero_or_pos s.pc.left with h0 | hpos
    · rwa [sections_of_idle h0]
    · have hstep := left_step (s.step_move a) hpos
      rw [sections_of_left hpos]
      apply ih
      rw [List.length_cons] at h
      omega

/-- Some section that is left finds its event. -/
def eventsLeft (s : Relay) : Bool :=
  match s.pc with
  | .readClient => s.client.revents.ready || s.proxy.revents.ready
  | .readProxy => s.client.revents.pollout || s.proxy.revents.ready
  | .writeClient => s.client.revents.pollout || s.proxy.revents.pollout
  | .writeProxy => s.proxy.revents.pollout
  | _ => false

/-- A step either makes an attempt, for which it found an event, or passes on to the next section
all the events that are left. -/
theorem step_attempts {s s' : Relay} {new : List RelayCall} (hm : s.Move s' new) (hheeds : s.Heeds)
    (hleft : 0 < s.pc.left) :
    (s.eventsLeft = true ∧ ∃ c ∈ new, c.isAttempt = true) ∨
      (new = [] ∧ s' = { s with pc := s'.pc } ∧ s'.eventsLeft = s.eventsLeft ∧
        (s'.pc.left = 0 → s'.pc = .poll)) := by
  cases hm with
  | finished hpc | pollFailed hpc | pollTimeout hpc | polled hpc => simp [hpc] at hleft
  | clientReadFailed hpc h | clientEof hpc h | clientRead hpc h | proxyReadFailed hpc h
  | proxyEof hpc h | proxyRead hpc h | clientWriteFailed hpc h | clientWrite hpc h
  | proxyWriteFailed hpc h | proxyWrite hpc h =>
    exact .inl (by simp [eventsLeft, hpc, h, Revents.ready, RelayCall.isAttempt])
  | noClientInput hpc h =>
    exact .inr (by simp [eventsLeft, hpc, h, Revents.ready])
  | noProxyInput hpc h =>
    exact .inr (by simp [eventsLeft, hpc, h, Revents.ready])
  | noClientOutput hpc h =>
    have hout : s.client.revents.pollout = false := by
      refine h.elim id fun hn => ?_
      by_contra hout
      have := hheeds.clientOut (.inr (.inr hpc)) (by simpa using hout)
      omega
    exact .inr (by simp [eventsLeft, hpc, hout])
  | noProxyOutput hpc h =>
    have hout : s.proxy.revents.pollout = false := by
      refine h.elim id fun hn => ?_
      by_contra hout
      have := hheeds.proxyOut (.inr (.inr (.inr hpc))) (by simpa using hout)
      omega
    exact .inr (by simp [eventsLeft, hpc, hout])

/-- The sections that are left make an attempt if one of them finds its event; if not, they do
nothing. -/
theorem sections_attempts (as : List Answer) : ∀ s : Relay, s.Heeds → s.toBuf.Within bufsize →
    s.frBuf.Within bufsize → 0 < s.pc.left → s.pc.left ≤ as.length →
    if s.eventsLeft then ∃ c ∈ (s.sections as).2, c.isAttempt = true
    else s.sections as = ({ s with pc := .poll }, []) := by
  induction as with
  | nil =>
    intro s _ _ _ hpos hlen
    rw [List.length_nil] at hlen
    omega
  | cons a as ih =>
    intro s hheeds hto hfr hpos hlen
    have hm := s.step_move a
    rw [sections_of_left hpos]
    rcases step_attempts hm hheeds hpos with ⟨hleft, c, hc, hattempt⟩ | ⟨hnew, hs', hleft, hlast⟩
    · rw [if_pos hleft]
      exact ⟨c, List.mem_append_left _ hc, hattempt⟩
    have hdec := left_step hm hpos
    have hheeds' := hheeds.step hto hfr hm (by simp [hnew])
    rw [hnew, ← hleft]
    generalize (s.step a).1 = s' at hs' hleft hlast hdec hheeds' ⊢
    rw [List.length_cons] at hlen
    have hpoll : { s' with pc := .poll } = { s with pc := .poll } := by
      rw [hs']
    rcases Nat.eq_zero_or_pos s'.pc.left with h0 | hpos'
    · have hpc := hlast h0
      rw [sections_of_idle h0, if_neg (by simp [eventsLeft, hpc]), ← hpoll, ← hpc]
      rfl
    · have hto' : s'.toBuf = s.toBuf := by rw [hs']
      have hfr' : s'.frBuf = s.frBuf := by rw [hs']
      have hrest := ih s' hheeds' (hto' ▸ hto) (hfr' ▸ hfr) hpos' (by omega)
      rw [hpoll] at hrest
      exact hrest

theorem sections_run (as : List Answer) : ∀ s : Relay, ∃ k, ∀ calls,
    (as.take k).foldl (fun (s, calls) a => ((s.step a).1, calls ++ (s.step a).2)) (s, calls) =
      ((s.sections as).1, calls ++ (s.sections as).2) := by
  induction as with
  | nil => exact fun s => ⟨0, fun calls => by simp [sections]⟩
  | cons a as ih =>
    intro s
    rcases Nat.eq_zero_or_pos s.pc.left with h0 | hpos
    · exact ⟨0, fun calls => by simp [sections_of_idle h0]⟩
    · obtain ⟨k, hk⟩ := ih (s.step a).1
      refine ⟨k + 1, fun calls => ?_⟩
      rw [List.take_succ_cons, List.foldl_cons, hk, sections_of_left hpos, List.append_assoc]

end Relay

/-- A round that starts at a loop head of a run goes on with that run. -/
theorem negotiate_round (setup : Setup) (answers : List Answer) (r : PollResult)
    (as : List Answer) (hpc : (negotiate setup answers).1.pc = .poll) :
    ∃ more, negotiate setup (answers ++ more) = (((negotiate setup answers).1.round r as).1,
      (negotiate setup answers).2 ++ ((negotiate setup answers).1.round r as).2) := by
  set s := (negotiate setup answers).1 with hs
  obtain ⟨k, hk⟩ := Relay.sections_run as (s.poll r).1
  refine ⟨⟨r, .ok [], .ok 0⟩ :: as.take k, ?_⟩
  have hstep : s.step ⟨r, .ok [], .ok 0⟩ = s.poll r := by simp [Relay.step, hpc]
  rw [negotiate, List.foldl_append, List.foldl_cons]
  show (as.take k).foldl _ ((s.step ⟨r, .ok [], .ok 0⟩).1,
    (negotiate setup answers).2 ++ (s.step ⟨r, .ok [], .ok 0⟩).2) = _
  rw [hstep, hk, Relay.round, List.append_assoc]

/-- What `poll` answers is a subset of what it was asked for, besides errors. -/
def Relay.Answers (s : Relay) (client proxy : Revents) : Prop :=
  (RelayCall.poll s.selectEvents.client.events s.selectEvents.proxy.events
    (.ready client proxy)).compliant = true

/-- A round that `poll` starts ends at the loop head or with the relay.  It ends the relay or
attempts a read or a write exactly when `poll` reported more than errors. -/
theorem negotiate_round_attempts_iff (setup : Setup) (answers as : List Answer)
    (client proxy : Revents) (hpc : (negotiate setup answers).1.pc = .poll)
    (h : (negotiate setup answers).1.Answers client proxy) (hlen : 4 ≤ as.length) :
    let r := (negotiate setup answers).1.round (.ready client proxy) as
    (r.1.pc = .poll ∨ ∃ status, r.1.pc = .done status) ∧
      (((∃ status, r.1.pc = .done status) ∨ ∃ c ∈ r.2, c.isAttempt = true) ↔
        (client.ready || proxy.ready) = true) := by
  set s := (negotiate setup answers).1 with hs
  have hkept := negotiate_streamsKept setup answers
  have hm := Relay.Move.polled hpc client proxy
  have hheeds := (Relay.heeds_of_idle (.inl hpc)).step hkept.toProxy.within hkept.toClient.within hm
    fun c hc => List.mem_singleton.mp hc ▸ h
  have hends := Relay.sections_end as (s.poll (.ready client proxy)).1 hlen
  have hattempts := Relay.sections_attempts as (s.poll (.ready client proxy)).1 hheeds
    hkept.toProxy.within hkept.toClient.within (Nat.succ_pos 3) hlen
  have hleft : (s.poll (.ready client proxy)).1.eventsLeft = (client.ready || proxy.ready) := rfl
  rw [hleft] at hattempts
  refine ⟨Section.left_eq_zero.mp hends, fun hreturn => ?_, fun hready => ?_⟩
  · by_contra hnot
    rw [if_neg hnot] at hattempts
    have hround : s.round (.ready client proxy) as = ({ (s.poll (.ready client proxy)).1 with
        pc := .poll }, (s.poll (.ready client proxy)).2) := by
      rw [Relay.round, hattempts, List.append_nil]
    rw [hround] at hreturn
    rcases hreturn with ⟨status, hstatus⟩ | ⟨c, hc, hattempt⟩
    · cases hstatus
    · obtain rfl := List.mem_singleton.mp hc
      cases hattempt
  · rw [if_pos hready] at hattempts
    obtain ⟨c, hc, hattempt⟩ := hattempts
    exact .inr ⟨c, List.mem_append_right _ hc, hattempt⟩

/-- The first round of a relay whose client sends a byte. -/
theorem negotiate_round_attempts_byte :
    let r := (negotiateInit ⟨true, true, fun _ => 0, fun _ => 0⟩).round
      (.ready { noEvents with pollin := true } noEvents) byteThenClose
    (∃ status, r.1.pc = .done status) ∨ ∃ c ∈ r.2, c.isAttempt = true :=
  (negotiate_round_attempts_iff ⟨true, true, fun _ => 0, fun _ => 0⟩ [] byteThenClose
    { noEvents with pollin := true } noEvents rfl rfl (by decide)).2.mpr rfl

/-- The client closes its side, and then its connection is reset: `poll` is asked for nothing on the
client's socket, and keeps reporting the errors there. -/
def clientCloses : List Answer :=
  [⟨.ready { noEvents with pollin := true } noEvents, .ok [], .ok 0⟩, ⟨.timeout, .ok [], .ok 0⟩,
    ⟨.timeout, .ok [], .ok 0⟩, ⟨.timeout, .ok [], .ok 0⟩, ⟨.timeout, .ok [], .ok 0⟩]

/-- Each round goes back to the loop head without an attempt. -/
theorem negotiate_spins :
    let s := (negotiate ⟨true, true, fun _ => 0, fun _ => 0⟩ clientCloses).1
    let errors := { noEvents with pollerr := true, pollhup := true }
    let r := s.round (.ready errors noEvents) clientCloses
    s.pc = .poll ∧ s.Answers errors noEvents ∧ errors.any = true ∧
      r.1.pc = .poll ∧ r.2.map RelayCall.isAttempt = [false] := by
  exact ⟨rfl, rfl, rfl, rfl, rfl⟩

end Silksocks
