import Silksocks.Lib.TransferLoop

/-! `readn_timeo` and `writen_timeo` of `silkio.c`, over a socket that delivers or takes a stream in
pieces of any size, with signals between them.  What a read without errors stores, returns and
leaves depends on the stream alone. -/

namespace Silksocks

open TransferLoop

/-- What one `read` does: it fails with `EINTR`, fails for another reason, or delivers at most `k +
1` bytes. -/
inductive Arrival
  | eintr
  | error
  | upTo (k : Nat)
  deriving DecidableEq, Repr

/-- A socket: what its next reads do, and the bytes that it delivers before the end of file.  A read
behind the schedule delivers all that it can. -/
structure Source where
  schedule : List Arrival
  input : List UInt8
  deriving DecidableEq, Repr

/-- What `read` returns; no bytes stand for the end of file. -/
inductive ReadResult
  | eintr
  | error
  | data (bs : List UInt8)
  deriving DecidableEq, Repr

/-- `read` of at most `n` bytes. -/
def Source.read (n : Nat) : Source → ReadResult × Source
  | ⟨[], input⟩ => (.data (input.take n), ⟨[], input.drop n⟩)
  | ⟨.eintr :: schedule, input⟩ => (.eintr, ⟨schedule, input⟩)
  | ⟨.error :: schedule, input⟩ => (.error, ⟨schedule, input⟩)
  | ⟨.upTo k :: schedule, input⟩ =>
    (.data (input.take (min n (k + 1))), ⟨schedule, input.drop (min n (k + 1))⟩)

/-- The loop of `readn_timeo`: its reads, what it returns, the bytes at `vptr`, and the socket.  It
has no result where the fuel is used up. -/
def readnLoop (n : Nat) : (fuel nleft : Nat) → (stored : List UInt8) → Source →
    Loop ReadResult (Int × List UInt8 × Source)
  | 0, _, _, _ => ⟨[], none⟩
  | fuel + 1, nleft, stored, src =>
    if nleft = 0 then ⟨[], some ((n : Int) - nleft, stored, src)⟩ else
    match src.read nleft with
    | (.eintr, src) => (readnLoop n fuel nleft stored src).after ⟨stored.length, nleft, .eintr⟩
    | (.error, src) => ⟨[⟨stored.length, nleft, .error⟩], some (-1, stored, src)⟩
    | (.data bs, src) =>
      if bs = [] then ⟨[⟨stored.length, nleft, .data bs⟩], some ((n : Int) - nleft, stored, src)⟩
      else (readnLoop n fuel (nleft - bs.length) (stored ++ bs) src).after
        ⟨stored.length, nleft, .data bs⟩

/-- The loop of `readn_timeo` of `n` bytes from its start.  Every read uses up an entry of the
schedule or delivers a byte. -/
def readnTimeoLoop (n : Nat) (src : Source) : Loop ReadResult (Int × List UInt8 × Source) :=
  readnLoop n (src.schedule.length + n + 1) n [] src

/-- `readn_timeo` of `n` bytes, whose timeout can be set. -/
def readnTimeo (n : Nat) (src : Source) : Option (Int × List UInt8 × Source) :=
  (readnTimeoLoop n src).result

/-- The reads of `readn_timeo`. -/
def readnTimeoCalls (n : Nat) (src : Source) : List (Attempt ReadResult) :=
  (readnTimeoLoop n src).calls

/-- What one `write` does: it fails with `EINTR`, fails for another reason, or takes at most `k`
bytes. -/
inductive Acceptance
  | eintr
  | error
  | upTo (k : Nat)
  deriving DecidableEq, Repr

/-- A socket: what its next writes do, and the bytes that it has taken.  A write behind the schedule
takes all that it is given. -/
structure Sink where
  schedule : List Acceptance
  accepted : List UInt8
  deriving DecidableEq, Repr

/-- What `write` returns. -/
inductive WriteResult
  | eintr
  | error
  | wrote (n : Nat)
  deriving DecidableEq, Repr

/-- `write` of `data`. -/
def Sink.write (data : List UInt8) : Sink → WriteResult × Sink
  | ⟨[], accepted⟩ => (.wrote data.length, ⟨[], accepted ++ data⟩)
  | ⟨.eintr :: schedule, accepted⟩ => (.eintr, ⟨schedule, accepted⟩)
  | ⟨.error :: schedule, accepted⟩ => (.error, ⟨schedule, accepted⟩)
  | ⟨.upTo k :: schedule, accepted⟩ =>
    (.wrote (min data.length k), ⟨schedule, accepted ++ data.take k⟩)

/-- The loop of `writen_timeo` over the bytes of `buf`: its writes, what it returns, and the socket.
It has no result where the fuel is used up. -/
def writenLoop (buf : List UInt8) : (fuel ptr nleft : Nat) → Sink → Loop WriteResult (Int × Sink)
  | 0, _, _, _ => ⟨[], none⟩
  | fuel + 1, ptr, nleft, sink =>
    if nleft = 0 then ⟨[], some (buf.length, sink)⟩ else
    match sink.write ((buf.drop ptr).take nleft) with
    | (.eintr, sink) => (writenLoop buf fuel ptr nleft sink).after ⟨ptr, nleft, .eintr⟩
    | (.error, sink) => ⟨[⟨ptr, nleft, .error⟩], some (-1, sink)⟩
    | (.wrote n, sink) =>
      if n = 0 then ⟨[⟨ptr, nleft, .wrote n⟩], some (-1, sink)⟩
      else (writenLoop buf fuel (ptr + n) (nleft - n) sink).after ⟨ptr, nleft, .wrote n⟩

/-- The loop of `writen_timeo` of `buf` from its start.  Every write that does not end the loop uses
up an entry of the schedule or takes a byte. -/
def writenTimeoLoop (buf : List UInt8) (sink : Sink) : Loop WriteResult (Int × Sink) :=
  writenLoop buf (sink.schedule.length + buf.length + 1) 0 buf.length sink

/-- `writen_timeo` of `buf`, whose timeout can be set. -/
def writenTimeo (buf : List UInt8) (sink : Sink) : Option (Int × Sink) :=
  (writenTimeoLoop buf sink).result

/-- The writes of `writen_timeo`. -/
def writenTimeoCalls (buf : List UInt8) (sink : Sink) : List (Attempt WriteResult) :=
  (writenTimeoLoop buf sink).calls

/-- No read fails but with `EINTR`. -/
def NoError (schedule : List Arrival) : Prop := .error ∉ schedule

section Read

variable {schedule : List Arrival} {n nleft fuel : Nat}

/-- A read is interrupted, or takes the next bytes of the stream; unless the stream has ended, it
uses up an entry of the schedule or some of what is asked for. -/
theorem Source.read_cases (input : List UInt8) (h : NoError schedule) (hn : 0 < nleft) :
    ∃ schedule', NoError schedule' ∧
      ((schedule'.length < schedule.length ∧
        Source.read nleft ⟨schedule, input⟩ = (.eintr, ⟨schedule', input⟩)) ∨
      ∃ m, 0 < m ∧ m ≤ nleft ∧
        (input ≠ [] → schedule'.length + (nleft - m) < schedule.length + nleft ∧
          schedule'.length + (nleft - input.length) < schedule.length + nleft) ∧
        Source.read nleft ⟨schedule, input⟩ =
          (.data (input.take m), ⟨schedule', input.drop m⟩)) := by
  have hpos : input ≠ [] → 0 < input.length := List.length_pos_iff.mpr
  cases schedule with
  | nil => exact ⟨[], h, .inr ⟨nleft, hn, Nat.le_refl _, fun hne => by have := hpos hne; omega, rfl⟩⟩
  | cons a schedule =>
    have hrest : NoError schedule := fun hmem => h (List.mem_cons_of_mem a hmem)
    refine ⟨schedule, hrest, ?_⟩
    rw [List.length_cons]
    cases a with
    | eintr => exact .inl ⟨Nat.lt_succ_self _, rfl⟩
    | error => exact absurd List.mem_cons_self h
    | upTo k => exact .inr ⟨min nleft (k + 1), by omega, by omega, fun _ => by omega, rfl⟩

/-- The loop stores what the stream still has of the bytes that are left to read, and takes just
these. -/
theorem readnLoop_stream (nleft : Nat) (stored input : List UInt8) (h : NoError schedule)
    (hfuel : schedule.length + nleft < fuel) :
    ∃ schedule', NoError schedule' ∧
      (readnLoop n fuel nleft stored ⟨schedule, input⟩).result =
        some ((n : Int) - (nleft - input.length : Nat), stored ++ input.take nleft,
          ⟨schedule', input.drop nleft⟩) := by
  induction fuel generalizing nleft stored schedule input with
  | zero => omega
  | succ fuel ih =>
    unfold readnLoop
    by_cases hzero : nleft = 0
    · subst hzero
      exact ⟨schedule, h, by simp⟩
    rw [if_neg hzero]
    obtain ⟨schedule', h', hread⟩ := Source.read_cases input h (Nat.pos_of_ne_zero hzero)
    rcases hread with ⟨hlen, hread⟩ | ⟨m, hpos, hle, hlen, hread⟩
    · rw [hread]
      exact ih nleft stored input h' (by omega)
    rw [hread]
    dsimp only
    by_cases hend : input = []
    · subst hend
      exact ⟨schedule', h', by simp⟩
    have htake : input.take m ≠ [] := by
      rw [ne_eq, List.take_eq_nil_iff, not_or]
      exact ⟨Nat.ne_of_gt hpos, hend⟩
    have hleft := List.length_take (i := m) (l := input)
    have hlens := hlen hend
    obtain ⟨schedule'', h'', hloop⟩ := ih (nleft - (input.take m).length)
      (stored ++ input.take m) (input.drop m) h' (by omega)
    refine ⟨schedule'', h'', ?_⟩
    rw [if_neg htake, Loop.result_after, hloop, List.length_drop, List.append_assoc]
    -- what the loop still asks for is what the stream has behind these `m` bytes, if any
    rcases Nat.le_total m input.length with hm | hm
    · have hrest : nleft - m - (input.length - m) = nleft - input.length := by omega
      rw [hleft, Nat.min_eq_left hm, hrest, List.drop_drop, Nat.add_sub_cancel' hle,
        ← List.take_add, Nat.add_sub_cancel' hle]
    · rw [List.drop_of_length_le hm, List.take_of_length_le hm,
        List.take_of_length_le (Nat.le_trans hm hle), List.drop_of_length_le (Nat.le_trans hm hle)]
      simp [Nat.sub_eq_zero_of_le hm]

/-- `readn_timeo` returns the number of bytes that it stores: the next `n` bytes of the stream, or
all that are left of it. -/
theorem readnTimeo_stream (n : Nat) (input : List UInt8) (h : NoError schedule) :
    ∃ schedule', NoError schedule' ∧ readnTimeo n ⟨schedule, input⟩ =
      some (((input.take n).length : Int), input.take n, ⟨schedule', input.drop n⟩) := by
  have hfuel : schedule.length + n < schedule.length + n + 1 := Nat.lt_succ_self _
  obtain ⟨schedule', h', hloop⟩ := readnLoop_stream (n := n) n [] input h hfuel
  have hret : (n : Int) - (n - input.length : Nat) = ((input.take n).length : Nat) := by
    rw [List.length_take]
    omega
  refine ⟨schedule', h', ?_⟩
  rw [readnTimeo, readnTimeoLoop, hloop, hret, List.nil_append]

end Read

end Silksocks
