import Silksocks.Silkio

/-! The loops of `readn_timeo` and `writen_timeo`, call by call.  Both transfer the bytes of one
range in order, each of them once, and end as soon as no more signals come. -/

namespace Silksocks

open TransferLoop

/-! ### Calls -/

def ReadResult.outcome : ReadResult → Outcome
  | .eintr => .retry
  | .error => .ended
  | .data bs => if bs = [] then .ended else .moved bs.length

/-- The bytes that a read delivers. -/
def ReadResult.bytes : ReadResult → List UInt8
  | .data bs => bs
  | _ => []

def WriteResult.outcome : WriteResult → Outcome
  | .eintr => .retry
  | .error => .ended
  | .wrote n => if n = 0 then .ended else .moved n

/-! ### `readn_timeo` -/

/-- How the loop of `readn_timeo` over `n` bytes ends, which has stored `k` of them. -/
inductive ReadnEnd (n k : Nat) (calls : List (Attempt ReadResult)) (input : List UInt8) : Int → Prop
  | all (h : k = n) : ReadnEnd n k calls input n
  | eof (hk : k < n) (hinput : input = []) {c : Attempt ReadResult} (hc : calls.getLast? = some c)
    (hr : c.result = .data []) : ReadnEnd n k calls input k
  | error {c : Attempt ReadResult} (hc : calls.getLast? = some c) (hr : c.result = .error) :
    ReadnEnd n k calls input (-1)

/-- `readn_timeo` of `n` bytes from `src`: the bytes `stored` are the next ones of the stream. -/
structure ReadnExact (n : Nat) (src : Source) (ret : Int) (stored : List UInt8) (src' : Source)
    (calls : List (Attempt ReadResult)) : Prop where
  stream : stored ++ src'.input = src.input
  length : stored.length ≤ n
  received : calls.flatMap (fun c => c.result.bytes) = stored
  loop : Exact ReadResult.outcome n calls
  ends : ReadnEnd n stored.length calls src'.input ret

section Readn

variable {n k : Nat} {calls : List (Attempt ReadResult)} {input : List UInt8} {ret : Int}

theorem ReadnEnd.cons (h : ReadnEnd n k calls input ret) (c : Attempt ReadResult) :
    ReadnEnd n k (c :: calls) input ret := by
  have hlast : ∀ c', calls.getLast? = some c' → (c :: calls).getLast? = some c' := by
    intro c' hc'
    rw [List.getLast?_cons, hc']
    rfl
  cases h with
  | all h => exact .all h
  | eof hk hinput hc hr => exact .eof hk hinput (hlast _ hc) hr
  | error hc hr => exact .error (hlast _ hc) hr

/-- What a read can do.  One that does not end the loop uses up an entry of the schedule or some of
what is asked for. -/
theorem Source.read_spec (src : Source) {nleft : Nat} (hn : 0 < nleft) :
    (∃ schedule, src.read nleft = (.eintr, ⟨schedule, src.input⟩) ∧
      schedule.length < src.schedule.length) ∨
    (∃ schedule, src.read nleft = (.error, ⟨schedule, src.input⟩)) ∨
    ∃ bs src', src.read nleft = (.data bs, src') ∧ bs ++ src'.input = src.input ∧
      bs.length ≤ nleft ∧ (bs = [] → src.input = []) ∧
      src'.schedule.length ≤ src.schedule.length := by
  obtain ⟨schedule, input⟩ := src
  have hdata : ∀ m, 0 < m → m ≤ nleft → input.take m ++ input.drop m = input ∧
      (input.take m).length ≤ nleft ∧ (input.take m = [] → input = []) := by
    intro m hpos hle
    refine ⟨List.take_append_drop m input, ?_, fun hnil => ?_⟩
    · rw [List.length_take]
      omega
    · exact (List.take_eq_nil_iff.mp hnil).resolve_left (by omega)
  cases schedule with
  | nil =>
    obtain ⟨hsplit, hlen, hnil⟩ := hdata nleft hn (Nat.le_refl _)
    exact .inr (.inr ⟨_, _, rfl, hsplit, hlen, hnil, Nat.le_refl _⟩)
  | cons a schedule =>
    cases a with
    | eintr => exact .inl ⟨schedule, rfl, Nat.lt_succ_self _⟩
    | error => exact .inr (.inl ⟨schedule, rfl⟩)
    | upTo k =>
      obtain ⟨hsplit, hlen, hnil⟩ := hdata (min nleft (k + 1)) (by omega) (by omega)
      exact .inr (.inr ⟨_, _, rfl, hsplit, hlen, hnil, Nat.le_succ _⟩)

theorem readnLoop_exact {fuel : Nat} (nleft : Nat) (stored : List UInt8) (src : Source)
    (hn : stored.length + nleft = n) (hfuel : src.schedule.length + nleft < fuel) :
    ∃ ret got src',
      (readnLoop n fuel nleft stored src).result = some (ret, stored ++ got, src') ∧
      got ++ src'.input = src.input ∧
      (readnLoop n fuel nleft stored src).calls.flatMap (fun c => c.result.bytes) = got ∧
      Attempts ReadResult.outcome n stored.length (readnLoop n fuel nleft stored src).calls
        (stored ++ got).length ∧
      ReadnEnd n (stored ++ got).length (readnLoop n fuel nleft stored src).calls src'.input
        ret := by
  induction fuel generalizing nleft stored src with
  | zero => omega
  | succ fuel ih =>
    unfold readnLoop
    by_cases hzero : nleft = 0
    · subst hzero
      refine ⟨n, [], src, by simp, rfl, rfl, ?_, ?_⟩
      · rw [List.append_nil]
        exact .nil _
      · exact .all (by simpa using hn)
    rw [if_neg hzero]
    have hleft : nleft = n - stored.length := by omega
    have hlt : stored.length < n := by omega
    rcases src.read_spec (Nat.pos_of_ne_zero hzero) with ⟨schedule, hread, hlen⟩ |
      ⟨schedule, hread⟩ | ⟨bs, src', hread, hsplit, hlen, hnil, hsched⟩
    · -- a signal
      rw [hread]
      dsimp only [Loop.calls_after, Loop.result_after]
      obtain ⟨ret, got, src', hloop, hstream, hreceived, hcalls, hend⟩ :=
        ih nleft stored ⟨schedule, src.input⟩ hn (by dsimp only; omega)
      refine ⟨ret, got, src', hloop, hstream, ?_, ?_, hend.cons _⟩
      · simpa [ReadResult.bytes] using hreceived
      · rw [hleft] at hcalls ⊢
        exact .retry rfl hlt hcalls
    · rw [hread]
      refine ⟨-1, [], ⟨schedule, src.input⟩, by simp, rfl, rfl, ?_, .error rfl rfl⟩
      rw [List.append_nil, hleft]
      exact .ended rfl hlt
    · rw [hread]
      dsimp only
      by_cases hbs : bs = []
      · -- the end of the stream
        subst hbs
        have hinput := hnil rfl
        refine ⟨stored.length, [], src', ?_, hsplit, rfl, ?_, ?_⟩
        · have hret : (n : Int) - nleft = stored.length := by omega
          rw [if_pos rfl, List.append_nil, hret]
        · rw [if_pos rfl, List.append_nil, hleft]
          exact .ended rfl hlt
        · rw [if_pos rfl, List.append_nil]
          refine .eof hlt ?_ rfl rfl
          rw [← hinput, ← hsplit, List.nil_append]
      · have hpos := List.length_pos_iff.mpr hbs
        rw [if_neg hbs]
        have hptr : (stored ++ bs).length = stored.length + bs.length := List.length_append
        obtain ⟨ret, got, src'', hloop, hstream, hreceived, hcalls, hend⟩ :=
          ih (nleft - bs.length) (stored ++ bs) src' (by omega) (by omega)
        rw [hptr] at hcalls
        refine ⟨ret, bs ++ got, src'', ?_, ?_, ?_, ?_, ?_⟩
        · rw [Loop.result_after, hloop, List.append_assoc]
        · rw [List.append_assoc, hstream, hsplit]
        · rw [Loop.calls_after, List.flatMap_cons, hreceived]
          rfl
        · rw [← List.append_assoc]
          rw [hleft] at hcalls ⊢
          exact .moved (if_neg hbs) hpos (by omega) hcalls
        · rw [← List.append_assoc]
          exact hend.cons _

/-- `readn_timeo` returns whatever the reads do, and reads exactly. -/
theorem readnTimeo_exact (n : Nat) (src : Source) :
    ∃ ret stored src', readnTimeo n src = some (ret, stored, src') ∧
      ReadnExact n src ret stored src' (readnTimeoCalls n src) := by
  obtain ⟨ret, got, src', hloop, hstream, hreceived, hcalls, hend⟩ :=
    readnLoop_exact n [] src (Nat.zero_add n) (Nat.lt_succ_self _)
  rw [List.nil_append] at hloop hcalls hend
  exact ⟨ret, got, src', hloop,
    hstream, hcalls.le_of_le (Nat.zero_le n), hreceived, hcalls.exact, hend⟩

end Readn

/-! ### `writen_timeo` -/

/-- How the loop of `writen_timeo` over `n` bytes ends, of which `k` were taken. -/
inductive WritenEnd (n k : Nat) (calls : List (Attempt WriteResult)) : Int → Prop
  | all (h : k = n) : WritenEnd n k calls n
  | failed (hk : k < n) {c : Attempt WriteResult} (hc : calls.getLast? = some c)
    (hr : c.result = .error ∨ c.result = .wrote 0) : WritenEnd n k calls (-1)

/-- `writen_timeo` of `buf` to `sink`: the bytes `sent` that it takes are the first ones of
`buf`. -/
structure WritenExact (buf : List UInt8) (sink : Sink) (ret : Int) (sent : List UInt8)
    (sink' : Sink) (calls : List (Attempt WriteResult)) : Prop where
  accepted : sink'.accepted = sink.accepted ++ sent
  isPrefix : sent <+: buf
  loop : Exact WriteResult.outcome buf.length calls
  ends : WritenEnd buf.length sent.length calls ret

section Writen

variable {n k : Nat} {calls : List (Attempt WriteResult)} {ret : Int} {buf : List UInt8}

theorem WritenEnd.cons (h : WritenEnd n k calls ret) (c : Attempt WriteResult) :
    WritenEnd n k (c :: calls) ret := by
  cases h with
  | all h => exact .all h
  | failed hk hc hr =>
    refine .failed hk ?_ hr
    rw [List.getLast?_cons, hc]
    rfl

theorem Sink.write_spec (sink : Sink) (data : List UInt8) :
    (∃ schedule, sink.write data = (.eintr, ⟨schedule, sink.accepted⟩) ∧
      schedule.length < sink.schedule.length) ∨
    (∃ schedule, sink.write data = (.error, ⟨schedule, sink.accepted⟩)) ∨
    ∃ m schedule, m ≤ data.length ∧ schedule.length ≤ sink.schedule.length ∧
      sink.write data = (.wrote m, ⟨schedule, sink.accepted ++ data.take m⟩) := by
  obtain ⟨schedule, accepted⟩ := sink
  cases schedule with
  | nil =>
    refine .inr (.inr ⟨data.length, [], Nat.le_refl _, Nat.le_refl _, ?_⟩)
    rw [Sink.write, List.take_length]
  | cons a schedule =>
    cases a with
    | eintr => exact .inl ⟨schedule, rfl, Nat.lt_succ_self _⟩
    | error => exact .inr (.inl ⟨schedule, rfl⟩)
    | upTo k =>
      refine .inr (.inr ⟨min data.length k, schedule, Nat.min_le_left _ _, Nat.le_succ _, ?_⟩)
      rw [Sink.write, List.take_eq_take_min, Nat.min_comm]

theorem writenLoop_exact {fuel : Nat} (ptr nleft : Nat) (sink : Sink)
    (hn : ptr + nleft = buf.length) (hfuel : sink.schedule.length + nleft < fuel) :
    ∃ ret m sink', (writenLoop buf fuel ptr nleft sink).result = some (ret, sink') ∧
      sink'.accepted = sink.accepted ++ (buf.drop ptr).take m ∧
      Attempts WriteResult.outcome buf.length ptr (writenLoop buf fuel ptr nleft sink).calls
        (ptr + m) ∧
      WritenEnd buf.length (ptr + m) (writenLoop buf fuel ptr nleft sink).calls ret := by
  induction fuel generalizing ptr nleft sink with
  | zero => omega
  | succ fuel ih =>
    unfold writenLoop
    by_cases hzero : nleft = 0
    · subst hzero
      exact ⟨buf.length, 0, sink, by simp, by simp, .nil _, .all hn⟩
    rw [if_neg hzero]
    have hleft : nleft = buf.length - ptr := by omega
    have hlt : ptr < buf.length := by omega
    rcases sink.write_spec ((buf.drop ptr).take nleft) with ⟨schedule, hwrite, hlen⟩ |
      ⟨schedule, hwrite⟩ | ⟨m, schedule, hm, hlen, hwrite⟩
    · -- a signal
      rw [hwrite]
      obtain ⟨ret, m, sink', hloop, haccepted, hcalls, hend⟩ :=
        ih ptr nleft ⟨schedule, sink.accepted⟩ hn (by dsimp only; omega)
      refine ⟨ret, m, sink', hloop, haccepted, ?_, hend.cons _⟩
      rw [hleft] at hcalls ⊢
      exact .retry rfl hlt hcalls
    · rw [hwrite]
      refine ⟨-1, 0, ⟨schedule, sink.accepted⟩, rfl, by simp, ?_, .failed hlt rfl (.inl rfl)⟩
      rw [hleft]
      exact .ended rfl hlt
    · rw [hwrite]
      dsimp only
      have hroom : m ≤ nleft := Nat.le_trans hm (List.length_take_le _ _)
      by_cases hzero : m = 0
      · subst hzero
        rw [if_pos rfl]
        refine ⟨-1, 0, _, rfl, by simp, ?_, .failed hlt rfl (.inr rfl)⟩
        rw [hleft]
        exact .ended rfl hlt
      · rw [if_neg hzero]
        obtain ⟨ret, m', sink', hloop, haccepted, hcalls, hend⟩ := ih (ptr + m) (nleft - m)
          ⟨schedule, sink.accepted ++ ((buf.drop ptr).take nleft).take m⟩ (by omega)
          (by dsimp only; omega)
        refine ⟨ret, m + m', sink', hloop, ?_, ?_, ?_⟩
        · rw [haccepted, List.take_take, Nat.min_eq_left hroom, List.append_assoc, List.take_add,
            List.drop_drop]
        · rw [← Nat.add_assoc]
          rw [hleft] at hcalls ⊢
          exact .moved (if_neg hzero) (Nat.pos_of_ne_zero hzero) (by omega) hcalls
        · rw [← Nat.add_assoc]
          exact hend.cons _

/-- `writen_timeo` returns whatever the writes do, and writes exactly. -/
theorem writenTimeo_exact (buf : List UInt8) (sink : Sink) :
    ∃ ret sent sink', writenTimeo buf sink = some (ret, sink') ∧
      WritenExact buf sink ret sent sink' (writenTimeoCalls buf sink) := by
  obtain ⟨ret, m, sink', hloop, haccepted, hcalls, hend⟩ :=
    writenLoop_exact 0 buf.length sink (Nat.zero_add _) (Nat.lt_succ_self _)
  rw [Nat.zero_add] at hcalls hend
  rw [List.drop_zero] at haccepted
  have hlen : (buf.take m).length = m :=
    List.length_take_of_le (hcalls.le_of_le (Nat.zero_le _))
  refine ⟨ret, buf.take m, sink', hloop, haccepted, List.take_prefix m buf, hcalls.exact, ?_⟩
  rwa [hlen]

end Writen

example : writenTimeo [1, 2, 3] ⟨[.eintr, .upTo 2, .eintr], []⟩ = some (3, ⟨[], [1, 2, 3]⟩) := rfl

end Silksocks
