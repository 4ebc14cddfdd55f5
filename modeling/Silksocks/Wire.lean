import Silksocks.Session
import Silksocks.Lib.Dialogue

/-! An instance at one end of a connection to another one.  Its reads and writes there take what has
arrived and send what is to arrive at the other end, or fail; its host answers all other calls. -/

namespace Silksocks

open Program Prog Dialogue

/-- How an instance answers its calls, but for those on the connection to the other instance. -/
abbrev Host (ω : Type) : Type := (c : Call) → ω → Option (c.Result × ω)

/-- The world of an instance, and what becomes of its next reads and writes on the connection:
`some k` is one that fails after `k` bytes, by an error, a timeout or an end of file.  None fails
when the list has come to its end. -/
structure Wired (ω : Type) where
  world : ω
  fails : List (Option Nat)

variable {ω α β : Type}

/-- After how many bytes the next call for `n` bytes fails, if it does: before the last one. -/
def Wired.fail (l : Wired ω) (n : Nat) : Option Nat := l.fails.head?.join.map (min · (n - 1))

/-- What is left after such a call. -/
def Wired.next (l : Wired ω) : Wired ω := { l with fails := l.fails.tail }

@[simp] theorem Wired.fail_nil (w : ω) (n : Nat) : (Wired.mk w []).fail n = none := rfl

@[simp] theorem Wired.next_nil (w : ω) : (Wired.mk w []).next = ⟨w, []⟩ := rfl

/-- A read of `n` bytes from the connection, on which `i` has arrived.  It waits for the bytes that
it takes. -/
def Wired.read (l : Wired ω) (n : Nat) (i : List UInt8) :
    Option (Option (Bytes n) × Wired ω × List UInt8 × List UInt8) :=
  match l.fail n with
  | some k => if k ≤ i.length then some (none, l.next, i.drop k, []) else none
  | none =>
    if h : n ≤ i.length then
      some (some ⟨i.take n, List.length_take_of_le h⟩, l.next, i.drop n, [])
    else none

/-- A write of `data` to the connection. -/
def Wired.write (l : Wired ω) (data i : List UInt8) :
    Option (Bool × Wired ω × List UInt8 × List UInt8) :=
  match l.fail data.length with
  | some k => some (false, l.next, i, data.take k)
  | none => some (true, l.next, i, data)

/-- The answer to a call of an instance for which `fd` is its end of the connection.  The dialogue
ends where the relay starts. -/
def Host.wireAnswer (host : Host ω) (fd : Int) : (c : Call) → Wired ω → List UInt8 →
    Option (c.Result × Wired ω × List UInt8 × List UInt8)
  | .readn fd' n, l, i =>
    if fd' = fd then l.read n i
    else (host (.readn fd' n) l.world).map fun x => (x.1, ⟨x.2, l.fails⟩, i, [])
  | .writen fd' data, l, i =>
    if fd' = fd then l.write data i
    else (host (.writen fd' data) l.world).map fun x => (x.1, ⟨x.2, l.fails⟩, i, [])
  | .enter _, l, i => some ((), l, i, [])
  | .leave _ _, l, i => some ((), l, i, [])
  | .negotiate _ _, _, _ => none
  | c, l, i => (host c l.world).map fun x => (x.1, ⟨x.2, l.fails⟩, i, [])

section Transfers

variable {l l' : Wired ω} {n : Nat} {i i' o : List UInt8}

/-- What a read comes to: it fails, or it takes the next `n` bytes. -/
theorem Wired.read_cases {r : Option (Bytes n)} (h : l.read n i = some (r, l', i', o)) :
    l' = l.next ∧ o = [] ∧
      ((∃ k ≤ i.length, l.fail n = some k ∧ r = none ∧ i' = i.drop k) ∨
        ∃ bs : Bytes n, l.fail n = none ∧ r = some bs ∧ i = bs.val ++ i') := by
  cases hfail : l.fail n with
  | some k =>
    simp only [read, hfail] at h
    split at h
    · rename_i hle
      cases h
      exact ⟨rfl, rfl, .inl ⟨k, hle, rfl, rfl, rfl⟩⟩
    · cases h
  | none =>
    simp only [read, hfail] at h
    split at h
    · cases h
      exact ⟨rfl, rfl, .inr ⟨_, rfl, rfl, (List.take_append_drop ..).symm⟩⟩
    · cases h

theorem Wired.read_fails {k : Nat} (hfail : l.fail n = some k) (hle : k ≤ i.length) :
    l.read n i = some (none, l.next, i.drop k, []) := by
  simp [read, hfail, hle]

theorem Wired.read_whole (hfail : l.fail n = none) (bs : Bytes n) :
    l.read n (bs.val ++ i) = some (some bs, l.next, i, []) := by
  obtain ⟨bs, rfl⟩ := bs
  simp [read, hfail]

theorem Wired.read_later {r : Option (Bytes n)} (h : l.read n i = some (r, l', i', o))
    (j : List UInt8) : l.read n (i ++ j) = some (r, l', i' ++ j, o) := by
  obtain ⟨rfl, rfl, ⟨k, hle, hfail, rfl, rfl⟩ | ⟨bs, hfail, rfl, rfl⟩⟩ := read_cases h
  · rw [read_fails hfail (hle.trans (by simp)), List.drop_append_of_le_length hle]
  · rw [List.append_assoc, read_whole hfail]

/-- What a write comes to: it fails before the last byte, or it sends all. -/
theorem Wired.write_cases {r : Bool} {data : List UInt8} (h : l.write data i = some (r, l', i', o)) :
    l' = l.next ∧ i' = i ∧
      ((∃ k ≤ data.length - 1, r = false ∧ o = data.take k) ∨ r = true ∧ o = data) := by
  cases hfail : l.fail data.length with
  | some k =>
    obtain ⟨k', -, hk⟩ := Option.map_eq_some_iff.mp hfail
    simp only [write, hfail] at h
    cases h
    exact ⟨rfl, rfl, .inl ⟨k, hk ▸ Nat.min_le_right .., rfl, rfl⟩⟩
  | none =>
    simp only [write, hfail] at h
    cases h
    exact ⟨rfl, rfl, .inr ⟨rfl, rfl⟩⟩

theorem Wired.write_later {r : Bool} {data : List UInt8} (h : l.write data i = some (r, l', i', o))
    (j : List UInt8) : l.write data (i ++ j) = some (r, l', i' ++ j, o) := by
  cases hfail : l.fail data.length with
  | some k | none =>
    simp only [write, hfail] at h ⊢
    cases h
    rfl

end Transfers

theorem Host.wireAnswer_later {host : Host ω} {fd : Int} {c : Call} {l l' : Wired ω} {r : c.Result}
    {i i' o : List UInt8} (h : host.wireAnswer fd c l i = some (r, l', i', o)) (j : List UInt8) :
    host.wireAnswer fd c l (i ++ j) = some (r, l', i' ++ j, o) := by
  have hlocal : ∀ {ρ : Type} {r : ρ} {x : Option (ρ × ω)},
      (x.map fun x => (x.1, Wired.mk x.2 l.fails, i, ([] : List UInt8))) = some (r, l', i', o) →
        (x.map fun x => (x.1, Wired.mk x.2 l.fails, i ++ j, ([] : List UInt8))) =
          some (r, l', i' ++ j, o) := by
    intro ρ r x h
    obtain ⟨y, rfl, hy⟩ := Option.map_eq_some_iff.mp h
    cases hy
    rfl
  cases c with
  | readn fd' n =>
    dsimp only [wireAnswer] at h ⊢
    by_cases hfd : fd' = fd
    · rw [if_pos hfd] at h ⊢
      exact Wired.read_later h j
    · rw [if_neg hfd] at h ⊢
      exact hlocal h
  | writen fd' data =>
    dsimp only [wireAnswer] at h ⊢
    by_cases hfd : fd' = fd
    · rw [if_pos hfd] at h ⊢
      exact Wired.write_later h j
    · rw [if_neg hfd] at h ⊢
      exact hlocal h
  | enter | leave =>
    cases h
    rfl
  | negotiate => cases h
  | _ => exact hlocal h

/-- An instance with the other one at the end of `fd`. -/
def Host.wire (host : Host ω) (fd : Int) : Surroundings Call.Result UInt8 (Wired ω) :=
  ⟨host.wireAnswer fd, host.wireAnswer_later⟩

/-- A call that only the host answers. -/
def Call.Local (fd : Int) : Call → Prop
  | readn fd' _ => fd' ≠ fd
  | writen fd' _ => fd' ≠ fd
  | enter _ | leave _ _ | negotiate _ _ => False
  | _ => True

/-! ### Calls -/

section Calls

variable {host : Host ω} {fd : Int} {w w' : ω} {i j : List UInt8}

theorem Host.wire_local_eq {c : Call} (hc : c.Local fd) (ks : List (Option Nat)) :
    (host.wire fd).env c (⟨w, ks⟩, i, j) = (host c w).map fun x => (x.1, ⟨x.2, ks⟩, i, j) := by
  have hlocal : ∀ {ρ : Type} {x : Option (ρ × ω)},
      ((x.map fun x => (x.1, Wired.mk x.2 ks, i, ([] : List UInt8))).map fun x =>
        (x.1, x.2.1, x.2.2.1, j ++ x.2.2.2)) = x.map fun x => (x.1, ⟨x.2, ks⟩, i, j) := by
    intro ρ x
    cases x <;> simp
  cases c with
  | readn | writen => exact (congrArg (Option.map _) (if_neg hc)).trans hlocal
  | enter | leave | negotiate => exact hc.elim
  | _ => exact hlocal

theorem Host.wire_local {c : Call} {r : c.Result} (hc : c.Local fd)
    (h : host c w = some (r, w')) :
    (host.wire fd).env c (⟨w, []⟩, i, j) = some (r, ⟨w', []⟩, i, j) := by
  rw [Host.wire_local_eq hc, h]
  rfl

theorem Host.wire_readn {n : Nat} {l : Wired ω} {r : Option (Bytes n)}
    {s : Wired ω × List UInt8 × List UInt8}
    (h : (host.wire fd).env (.readn fd n) (l, i, j) = some (r, s)) :
    (∃ k, l.fail n = some k ∧ r = none ∧ s = (l.next, i.drop k, j)) ∨
      ∃ (bs : Bytes n) (rest : List UInt8), i = bs.val ++ rest ∧ r = some bs ∧
        s = (l.next, rest, j) := by
  obtain ⟨⟨r', l', i', o⟩, hx, heq⟩ := Option.map_eq_some_iff.mp h
  cases heq
  obtain ⟨rfl, rfl, ⟨k, -, hfail, hr, rfl⟩ | ⟨bs, -, hr, hi⟩⟩ :=
    Wired.read_cases ((if_pos rfl).symm.trans hx)
  · exact .inl ⟨k, hfail, hr, by rw [List.append_nil]⟩
  · exact .inr ⟨bs, i', hi, hr, by rw [List.append_nil]⟩

theorem Host.wire_writen {data : List UInt8} {l : Wired ω} {r : Bool}
    {s : Wired ω × List UInt8 × List UInt8}
    (h : (host.wire fd).env (.writen fd data) (l, i, j) = some (r, s)) :
    (∃ k, k ≤ data.length - 1 ∧ r = false ∧ s = (l.next, i, j ++ data.take k)) ∨
      (r = true ∧ s = (l.next, i, j ++ data)) := by
  obtain ⟨⟨r', l', i', o⟩, hx, heq⟩ := Option.map_eq_some_iff.mp h
  cases heq
  obtain ⟨rfl, rfl, ⟨k, hk, hr, rfl⟩ | ⟨hr, rfl⟩⟩ :=
    Wired.write_cases ((if_pos rfl).symm.trans hx)
  · exact .inl ⟨k, hk, hr, rfl⟩
  · exact .inr ⟨hr, rfl⟩

theorem Host.wire_read {n : Nat} (bs : Bytes n) (rest : List UInt8) :
    (host.wire fd).env (.readn fd n) (⟨w, []⟩, bs.val ++ rest, j) =
      some (some bs, ⟨w, []⟩, rest, j) := by
  have hread : (host.wire fd).answer (.readn fd n) ⟨w, []⟩ (bs.val ++ rest) =
      some (some bs, ⟨w, []⟩, rest, []) := (if_pos rfl).trans (Wired.read_whole rfl bs)
  simp [Surroundings.env, hread]

theorem Host.wire_write {data : List UInt8} :
    (host.wire fd).env (.writen fd data) (⟨w, []⟩, i, j) = some (true, ⟨w, []⟩, i, j ++ data) := by
  have hwrite : (host.wire fd).answer (.writen fd data) ⟨w, []⟩ i =
      some (true, ⟨w, []⟩, i, data) := if_pos rfl
  simp [Surroundings.env, hwrite]

theorem Host.wire_chunks (bss : List (List UInt8)) (rest : List UInt8) :
    Answers (host.wire fd).env (⟨w, []⟩, bss.flatten ++ rest, j) (bss.map (chunkEvent fd))
      (⟨w, []⟩, rest, j) := by
  induction bss with
  | nil => exact .nil _
  | cons bs bss ih =>
    rw [List.flatten_cons, List.append_assoc]
    exact .cons (Host.wire_read (Bytes.ofList bs) _) ih

theorem Host.wire_sent {data : List UInt8} :
    Answers (host.wire fd).env (⟨w, []⟩, i, j) [⟨.writen fd data, true⟩] (⟨w, []⟩, i, j ++ data) :=
  .cons Host.wire_write (.nil _)

theorem Host.wire_enter {f : Fn} {l : Wired ω} :
    Answers (host.wire fd).env (l, i, j) [⟨.enter f, ()⟩] (l, i, j) :=
  .cons (by simp [Surroundings.env, Host.wire, Host.wireAnswer]) (.nil _)

theorem Host.wire_leave {f : Fn} {st : Int} {l : Wired ω} :
    Answers (host.wire fd).env (l, i, j) [⟨.leave f st, ()⟩] (l, i, j) :=
  .cons (by simp [Surroundings.env, Host.wire, Host.wireAnswer]) (.nil _)

theorem Host.wire_answers {t : List SessionEvent} (h : Answers host w t w')
    (ht : ∀ e ∈ t, e.call.Local fd) :
    Answers (host.wire fd).env (⟨w, []⟩, i, j) t (⟨w', []⟩, i, j) :=
  h.map (fun w => (Wired.mk w [], i, j)) ht fun _ _ _ _ hc hcall => Host.wire_local hc hcall

end Calls

/-! ### Programs where no call fails -/

section Programs

variable {host : Host ω} {fd : Int} {w : ω} {i o : List UInt8} {p q : Session α}
  {s s' : Wired ω × List UInt8 × List UInt8}

theorem Host.eval_local {c : Call} {next : c.Result → Session α} {a : α} (hc : c.Local fd)
    (h : (Prog.call c next).eval (host.wire fd).env (⟨w, []⟩, i, o) = some (a, s)) :
    ∃ r w1, host c w = some (r, w1) ∧
      (next r).eval (host.wire fd).env (⟨w1, []⟩, i, o) = some (a, s) := by
  rw [eval_call, Host.wire_local_eq hc, Option.bind_eq_some_iff] at h
  obtain ⟨_, hlocal, h⟩ := h
  obtain ⟨⟨r, w1⟩, hcall, hx⟩ := Option.map_eq_some_iff.mp hlocal
  cases hx
  exact ⟨r, w1, hcall, h⟩

theorem Host.eval_writen {data : List UInt8} {next : Bool → Session α} :
    (Prog.call (.writen fd data) next).eval (host.wire fd).env (⟨w, []⟩, i, o) =
      (next true).eval (host.wire fd).env (⟨w, []⟩, i, o ++ data) := by
  rw [eval_call, Host.wire_write]
  rfl

theorem Host.eval_readn {n : Nat} {next : Option (Bytes n) → Session α} {a : α}
    (h : (Prog.call (.readn fd n) next).eval (host.wire fd).env (⟨w, []⟩, i, o) = some (a, s)) :
    ∃ (bs : Bytes n) (rest : List UInt8), i = bs.val ++ rest ∧
      (next (some bs)).eval (host.wire fd).env (⟨w, []⟩, rest, o) = some (a, s) := by
  rw [eval_call, Option.bind_eq_some_iff] at h
  obtain ⟨⟨r, s1⟩, hcall, h⟩ := h
  rcases Host.wire_readn hcall with ⟨k, hfail, -⟩ | ⟨bs, rest, rfl, rfl, rfl⟩
  · cases hfail
  · exact ⟨bs, rest, rfl, h⟩

/-- What a program has to do with its host alone leaves the connection as it is. -/
theorem Host.wire_eval (hp : p.All (Call.Local fd)) :
    p.eval (host.wire fd).env (⟨w, []⟩, i, o) =
      (p.eval host w).map fun x => (x.1, ⟨x.2, []⟩, i, o) := by
  induction p generalizing w with
  | done a => rfl
  | call c next ih =>
    rw [eval_call, eval_call, Host.wire_local_eq hp.1]
    cases host c w with
    | none => rfl
    | some x => exact ih x.1 (hp.2 x.1)

theorem Host.wire_quiet (hp : p.All (Call.Local fd))
    (h : p.Goes (host.wire fd).env (⟨w, []⟩, i, o) q s') : s'.2 = (i, o) := by
  induction p generalizing w with
  | done a =>
    obtain ⟨t, hrun, ht⟩ := h
    obtain ⟨rfl, -⟩ := runs_done.mp hrun
    cases ht
    rfl
  | call c next ih =>
    rcases h.call_inv with ⟨-, rfl⟩ | ⟨r, s1, hcall, h⟩
    · rfl
    rw [Host.wire_local_eq hp.1] at hcall
    obtain ⟨x, -, hx⟩ := Option.map_eq_some_iff.mp hcall
    cases hx
    exact ih _ (hp.2 _) h

theorem Host.wire_silent (hp : p.All (Call.Local fd)) (hsent : s'.2.2 ≠ o) :
    ¬ p.Goes (host.wire fd).env (⟨w, []⟩, i, o) q s' :=
  fun h => hsent (congrArg Prod.snd (Host.wire_quiet hp h))

/-- A program that sends more after such a part has come to its end. -/
theorem Host.goes_local {f : α → Session β} {q : Session β} (hp : p.All (Call.Local fd))
    (h : (p >>= f).Goes (host.wire fd).env (⟨w, []⟩, i, o) q s') (hsent : s'.2.2 ≠ o) :
    ∃ a w1, p.eval host w = some (a, w1) ∧ (f a).Goes (host.wire fd).env (⟨w1, []⟩, i, o) q s' := by
  rcases h.bind_inv with ⟨p', hp'⟩ | ⟨a, s1, heval, h⟩
  · exact absurd hp' (Host.wire_silent hp hsent)
  · rw [Host.wire_eval hp] at heval
    obtain ⟨x, hx, heq⟩ := Option.map_eq_some_iff.mp heval
    cases heq
    exact ⟨_, _, hx, h⟩

theorem Host.goes_call {c : Call} {next : c.Result → Session α} (hc : c.Local fd)
    (h : (Prog.call c next).Goes (host.wire fd).env (⟨w, []⟩, i, o) q s') (hsent : s'.2.2 ≠ o) :
    ∃ r w1, host c w = some (r, w1) ∧ (next r).Goes (host.wire fd).env (⟨w1, []⟩, i, o) q s' := by
  rcases h.call_inv with ⟨-, rfl⟩ | ⟨r, s1, hcall, h⟩
  · exact absurd rfl hsent
  · rw [Host.wire_local_eq hc] at hcall
    obtain ⟨x, hx, heq⟩ := Option.map_eq_some_iff.mp hcall
    cases heq
    exact ⟨_, _, hx, h⟩

/-- A function whose start and end are noted, but for its end. -/
theorem Host.goes_enter {fn : Fn} {status : α → Int} {f : α → Session β} {q : Session β}
    (h : (noted fn status p >>= f).Goes (host.wire fd).env (⟨w, []⟩, i, o) q s')
    (hsent : s'.2.2 ≠ o) :
    (p >>= fun a => Prog.call (.leave fn (status a)) fun _ => f a).Goes (host.wire fd).env
      (⟨w, []⟩, i, o) q s' := by
  rw [noted_eq, call_bind] at h
  have henter := goes_answered (S := host.wire fd) rfl h hsent
  rwa [Prog.bind_assoc, List.append_nil] at henter

theorem Host.goes_leave {fn : Fn} {st : Int}
    (h : (Prog.call (.leave fn st) fun _ => p).Goes (host.wire fd).env (⟨w, []⟩, i, o) q s')
    (hsent : s'.2.2 ≠ o) : p.Goes (host.wire fd).env (⟨w, []⟩, i, o) q s' := by
  have hleave := goes_answered (S := host.wire fd) rfl h hsent
  rwa [List.append_nil] at hleave

/-- A function that has to do with its host alone, and whose start and end are noted. -/
theorem Host.goes_noted {fn : Fn} {status : α → Int} {f : α → Session β} {q : Session β}
    (hp : p.All (Call.Local fd))
    (h : (noted fn status p >>= f).Goes (host.wire fd).env (⟨w, []⟩, i, o) q s')
    (hsent : s'.2.2 ≠ o) :
    ∃ a w1, p.eval host w = some (a, w1) ∧ (f a).Goes (host.wire fd).env (⟨w1, []⟩, i, o) q s' := by
  obtain ⟨a, w1, heval, hleave⟩ := Host.goes_local hp (Host.goes_enter h hsent) hsent
  exact ⟨a, w1, heval, Host.goes_leave hleave hsent⟩

end Programs

end Silksocks
