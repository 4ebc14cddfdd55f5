import Mathlib.Data.List.Basic

/-! `connect_nonb`, in the build that uses `poll`.  It makes the socket nonblocking, connects, and
waits until `poll` reports the socket.  Once the mode is changed, only the exit behind a report sets
it back, and no exit looks at the outcome that the report stands for. -/

namespace Silksocks

/-- `O_NONBLOCK`. -/
def oNonblock : UInt32 := 2048

/-- The values of `errno` that `connect_nonb` tells apart. -/
inductive ConnectErrno
  | eagain
  | einprogress
  | eintr
  | other
  deriving DecidableEq, Repr

/-- What one `poll` for `POLLOUT` on the socket does.  It reports the socket when the connection has
been made or has failed: `soError` is the error that is then pending in `SO_ERROR`, 0 for none.
`POLLERR` and `POLLHUP` come with an error, and `connect_nonb` looks at neither. -/
inductive ConnectPoll
  | error (e : ConnectErrno)
  | timeout
  | reported (soError : Nat)
  deriving DecidableEq, Repr

/-- What the system calls of `connect_nonb` do: whether the `F_GETFL` and the two `F_SETFL` succeed,
how `connect` returns, and what `poll` answers each time. -/
structure Kernel where
  getfl : Bool
  setfl : Bool
  connect : Except ConnectErrno Unit
  polls : List ConnectPoll
  restore : Bool

/-- A `poll` that is made again. -/
def ConnectPoll.retried : ConnectPoll → Bool
  | .error e => e = .eintr || e = .eagain
  | _ => false

/-- The loop at `again`, on a socket that had the mode `flags`: the result, and the mode then.  It
is `none` while all answers of `poll` so far are retried. -/
def connectAgain (restore : Bool) (flags : UInt32) : List ConnectPoll → Option (Int × UInt32)
  | [] => none
  | .error e :: polls =>
    if e = .eintr ∨ e = .eagain then connectAgain restore flags polls
    else some (-1, flags ||| oNonblock)
  | .timeout :: _ => some (-1, flags ||| oNonblock)
  | .reported _ :: _ => some (0, if restore then flags else flags ||| oNonblock)

/-- `connect_nonb` on a socket with the mode `flags`: the result, and the mode afterwards. -/
def connectNonb (k : Kernel) (flags : UInt32) : Option (Int × UInt32) :=
  if k.getfl = false then some (-1, flags)
  else if k.setfl = false then some (-1, flags)
  else
    match k.connect with
    | .error e =>
      if e ≠ .eagain ∧ e ≠ .einprogress then some (-1, flags ||| oNonblock)
      else connectAgain k.restore flags k.polls
    | .ok () => connectAgain k.restore flags k.polls

namespace Kernel

/-- The first answer of `poll` that is not retried. -/
def answer (k : Kernel) : Option ConnectPoll := k.polls.find? fun r => !r.retried

/-- The connection was made at once, or no error was pending when the socket was reported. -/
def Established (k : Kernel) : Prop := k.connect = .ok () ∨ k.answer = some (.reported 0)

/-- The mode is changed, and `poll` is waited for. -/
def Waits (k : Kernel) : Prop :=
  k.getfl = true ∧ k.setfl = true ∧
    (k.connect = .ok () ∨ k.connect = .error .eagain ∨ k.connect = .error .einprogress)

/-- The socket is reported. -/
def Reported (k : Kernel) : Prop := k.Waits ∧ ∃ soError, k.answer = some (.reported soError)

/-- The mode is not changed, is what it would be changed to, or is set back. -/
def ModeKept (k : Kernel) (flags : UInt32) : Prop :=
  k.getfl = false ∨ k.setfl = false ∨ flags ||| oNonblock = flags ∨ (k.Reported ∧ k.restore = true)

end Kernel

/-- A result of `connect_nonb` that reports success only for an established connection, and comes
with the mode that the socket had. -/
def Honest (k : Kernel) (flags : UInt32) (r : Int × UInt32) : Prop :=
  (r.1 = 0 → k.Established) ∧ r.2 = flags

section Connect

variable {k : Kernel} {flags : UInt32} {r : Int × UInt32}

/-- What a call does that has changed the mode. -/
def afterAnswer (restore : Bool) (flags : UInt32) : ConnectPoll → Int × UInt32
  | .reported _ => (0, if restore then flags else flags ||| oNonblock)
  | _ => (-1, flags ||| oNonblock)

theorem connectAgain_eq (restore : Bool) (flags : UInt32) (polls : List ConnectPoll) :
    connectAgain restore flags polls =
      (polls.find? fun r => !r.retried).map (afterAnswer restore flags) := by
  induction polls with
  | nil => rfl
  | cons r polls ih =>
    cases r with
    | error e => cases e <;> simp [connectAgain, ConnectPoll.retried, afterAnswer, ih]
    | timeout => simp [connectAgain, ConnectPoll.retried, afterAnswer]
    | reported soError => simp [connectAgain, ConnectPoll.retried, afterAnswer]

/-- The ways in which a call returns. -/
theorem connectNonb_cases (h : connectNonb k flags = some r) :
    ((k.getfl = false ∨ k.setfl = false) ∧ r = (-1, flags)) ∨
    (k.getfl = true ∧ k.setfl = true ∧ ¬ k.Waits ∧ r = (-1, flags ||| oNonblock)) ∨
    (k.Waits ∧ ∃ a, k.answer = some a ∧ r = afterAnswer k.restore flags a) := by
  have hwaits (h : k.Waits) (hr : connectAgain k.restore flags k.polls = some r) :
      k.Waits ∧ ∃ a, k.answer = some a ∧ r = afterAnswer k.restore flags a := by
    rw [connectAgain_eq] at hr
    obtain ⟨a, ha, hr⟩ := Option.map_eq_some_iff.mp hr
    exact ⟨h, a, ha, hr.symm⟩
  rw [connectNonb] at h
  split at h
  · rename_i hgetfl
    exact .inl ⟨.inl hgetfl, (Option.some.inj h).symm⟩
  rename_i hgetfl
  split at h
  · rename_i hsetfl
    exact .inl ⟨.inr hsetfl, (Option.some.inj h).symm⟩
  rename_i hsetfl
  rw [Bool.not_eq_false] at hgetfl hsetfl
  split at h
  · rename_i e hconnect
    split at h
    · rename_i hfailed
      refine .inr (.inl ⟨hgetfl, hsetfl, fun hw => ?_, (Option.some.inj h).symm⟩)
      simpa [hconnect, hfailed] using hw.2.2
    · rename_i hgoes
      refine .inr (.inr (hwaits ⟨hgetfl, hsetfl, .inr ?_⟩ h))
      simpa [hconnect, imp_iff_not_or] using hgoes
  · rename_i hconnect
    exact .inr (.inr (hwaits ⟨hgetfl, hsetfl, .inl hconnect⟩ h))

theorem honest_failure {flags' : UInt32} : Honest k flags (-1, flags') ↔ flags' = flags := by
  simp [Honest]

theorem honest_success {flags' : UInt32} :
    Honest k flags (0, flags') ↔ k.Established ∧ flags' = flags := by
  simp [Honest]

/-- A mode that is changed and not set back is kept if it has `O_NONBLOCK` already. -/
theorem modeKept_iff (hgetfl : k.getfl = true) (hsetfl : k.setfl = true)
    (h : ¬ (k.Reported ∧ k.restore = true)) : k.ModeKept flags ↔ flags ||| oNonblock = flags := by
  simp [Kernel.ModeKept, hgetfl, hsetfl, h]

theorem not_reported_of_answer {a : ConnectPoll} (ha : k.answer = some a)
    (hne : ∀ soError, a ≠ .reported soError) : ¬ k.Reported := by
  rintro ⟨-, soError, h⟩
  exact hne soError (Option.some.inj (ha.symm.trans h))

/-- For all results of the system calls, `connect_nonb` reports success only for an established
connection and leaves the mode as it found it, if and only if the mode is kept and a socket that is
reported is connected. -/
theorem connectNonb_honest (k : Kernel) (flags : UInt32) (r : Int × UInt32)
    (h : connectNonb k flags = some r) :
    Honest k flags r ↔ k.ModeKept flags ∧ (k.Reported → k.Established) := by
  rcases connectNonb_cases h with
    ⟨hfcntl, rfl⟩ | ⟨hgetfl, hsetfl, hwaits, rfl⟩ | ⟨hwaits, a, ha, rfl⟩
  · have hno : ¬ k.Reported := fun hrep => by simp [hrep.1.1, hrep.1.2.1] at hfcntl
    have hkept : k.ModeKept flags := hfcntl.elim .inl fun hsetfl => .inr (.inl hsetfl)
    simp [honest_failure, hno, hkept]
  · have hno : ¬ k.Reported := fun hrep => hwaits hrep.1
    simp [honest_failure, modeKept_iff hgetfl hsetfl fun hrep => hno hrep.1, hno]
  · have hgetfl := hwaits.1
    have hsetfl := hwaits.2.1
    cases a with
    | error e =>
      have hno := not_reported_of_answer ha (by simp)
      simp [afterAnswer, honest_failure, modeKept_iff hgetfl hsetfl fun hrep => hno hrep.1, hno]
    | timeout =>
      have hno := not_reported_of_answer ha (by simp)
      simp [afterAnswer, honest_failure, modeKept_iff hgetfl hsetfl fun hrep => hno hrep.1, hno]
    | reported soError =>
      have hrep : k.Reported := ⟨hwaits, soError, ha⟩
      rw [afterAnswer, honest_success]
      cases hrestore : k.restore with
      | false => simp [modeKept_iff hgetfl hsetfl (by simp [hrestore]), hrep, and_comm]
      | true => simp [Kernel.ModeKept, hrep, hrestore]

/-- A connection that is made while the first two answers of `poll` are retried. -/
theorem connectNonb_honest_retried :
    Honest ⟨true, true, .error .einprogress, [.error .eintr, .error .eagain, .reported 0], true⟩ 2
      (0, 2) := by
  refine (connectNonb_honest _ 2 _ rfl).mpr
    ⟨.inr (.inr (.inr ⟨⟨?_, 0, rfl⟩, rfl⟩)), fun _ => .inr rfl⟩
  exact ⟨rfl, rfl, .inr (.inr rfl)⟩

/-- A connection that is refused with the error 111 is reported as a success, and a socket on which
the time runs out stays nonblocking. -/
theorem connectNonb_honest_counterexample :
    (connectNonb ⟨true, true, .error .einprogress, [.reported 111], true⟩ 2 = some (0, 2) ∧
      ¬ Honest ⟨true, true, .error .einprogress, [.reported 111], true⟩ 2 (0, 2)) ∧
    connectNonb ⟨true, true, .error .einprogress, [.timeout], true⟩ 2 = some (-1, 2050) ∧
      ¬ Honest ⟨true, true, .error .einprogress, [.timeout], true⟩ 2 (-1, 2050) := by
  refine ⟨⟨rfl, fun hhonest => ?_⟩, rfl, fun hhonest => ?_⟩
  · rcases hhonest.1 rfl with h | h <;> cases h
  · exact absurd hhonest.2 (by decide)

end Connect

end Silksocks
