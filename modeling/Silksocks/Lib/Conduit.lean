import Silksocks.Lib.Lts

/-! Conduits: what a relay is for, in one direction.  A conduit takes what its source sends, passes it
on in order, and closes its sink behind the last element, once its source has ended. -/

namespace Conduit

open Lts

variable {α : Type}

/-- What a conduit holds, whether its source has ended and whether it has closed its sink. -/
structure State (α : Type) where
  pending : List α
  ended : Bool
  closed : Bool

inductive Io (α : Type)
  | recv (data : List α)
  | eof
  | send (data : List α)
  | close

inductive Step : State α → Io α → State α → Prop
  | recv {pending data : List α} {closed : Bool} :
    Step ⟨pending, false, closed⟩ (.recv data) ⟨pending ++ data, false, closed⟩
  | eof {pending : List α} {closed : Bool} :
    Step ⟨pending, false, closed⟩ .eof ⟨pending, true, closed⟩
  | send {data rest : List α} {ended : Bool} :
    Step ⟨data ++ rest, ended, false⟩ (.send data) ⟨rest, ended, false⟩
  | close : Step ⟨[], true, false⟩ .close ⟨[], true, true⟩

/-- A conduit that has taken nothing. -/
def fresh : State α := ⟨[], false, false⟩

namespace Io

def received : Io α → List α
  | recv data => data
  | _ => []

def sent : Io α → List α
  | send data => data
  | _ => []

end Io

/-- What came in. -/
def received (ls : List (Io α)) : List α := ls.flatMap Io.received

/-- What went out. -/
def sent (ls : List (Io α)) : List α := ls.flatMap Io.sent

variable {s : State α} {ls ls' : List (Io α)} {l : Io α}

@[simp] theorem received_snoc : received (ls ++ [l]) = received ls ++ l.received := by
  simp [received]

@[simp] theorem sent_snoc : sent (ls ++ [l]) = sent ls ++ l.sent := by
  simp [sent]

/-- What went out and what is pending are together what came in. -/
theorem stream (h : Run Step fresh ls s) : sent ls ++ s.pending = received ls := by
  refine h.invariant (I := fun ls s => sent ls ++ s.pending = received ls) rfl ?_
  intro ls s1 l s2 _ hI hs
  rw [sent_snoc, received_snoc, ← hI]
  cases hs <;> simp [Io.sent, Io.received]

theorem ended_iff (h : Run Step fresh ls s) : s.ended = true ↔ .eof ∈ ls := by
  refine h.invariant (I := fun ls s => s.ended = true ↔ .eof ∈ ls) (by simp [fresh]) ?_
  intro ls s1 l s2 _ hI hs
  cases hs <;> simp_all

/-- A conduit that has closed its sink has nothing left to do. -/
theorem closed_iff (h : Run Step fresh ls s) :
    (s.closed = true ↔ .close ∈ ls) ∧ (s.closed = true → s.pending = [] ∧ s.ended = true) := by
  refine h.invariant (I := fun ls s => (s.closed = true ↔ .close ∈ ls) ∧
    (s.closed = true → s.pending = [] ∧ s.ended = true)) (by simp [fresh]) ?_
  rintro ls s1 l s2 - ⟨hiff, hdone⟩ hs
  cases hs with
  | recv | eof =>
    refine ⟨by simpa using hiff, fun hclosed => ?_⟩
    cases (hdone hclosed).2
  | send => exact ⟨by simpa using hiff, nofun⟩
  | close => exact ⟨by simp, fun _ => ⟨rfl, rfl⟩⟩

/-- Nothing follows when the sink is closed. -/
theorem run_closed (h : Run Step ⟨[], true, true⟩ ls s) : ls = [] := by
  refine (h.invariant (I := fun ls s => ls = [] ∧ s = ⟨[], true, true⟩) ⟨rfl, rfl⟩ ?_).1
  rintro ls s1 l s2 - ⟨-, hs1⟩ hs
  cases hs <;> simp at hs1

/-- The sink is closed last, when all that came in from a source that has ended has gone out. -/
theorem close_last (h : Run Step fresh (ls ++ .close :: ls') s) :
    ls' = [] ∧ sent ls = received ls ∧ .eof ∈ ls ∧ .close ∉ ls := by
  rw [List.append_cons] at h
  obtain ⟨s2, h2, h'⟩ := h.split
  obtain ⟨s1, h1, hs⟩ := h2.snoc_inv
  cases hs
  have hstream := stream h1
  rw [List.append_nil] at hstream
  exact ⟨run_closed h', hstream, (ended_iff h1).mp rfl, fun hmem =>
    Bool.false_ne_true ((closed_iff h1).1.mpr hmem)⟩

/-- Once the source has ended, nothing comes in. -/
theorem eof_once (h : Run Step fresh (ls ++ .eof :: ls') s) :
    .eof ∉ ls ∧ .eof ∉ ls' ∧ received ls' = [] := by
  rw [List.append_cons] at h
  obtain ⟨s2, h2, h'⟩ := h.split
  obtain ⟨s1, h1, hs⟩ := h2.snoc_inv
  have hended : s2.ended = true ∧ s1.ended = false := by cases hs; exact ⟨rfl, rfl⟩
  have hnone : s.ended = true ∧ .eof ∉ ls' ∧ received ls' = [] := by
    refine h'.invariant (I := fun ls s => s.ended = true ∧ .eof ∉ ls ∧ received ls = [])
      ⟨hended.1, by simp, rfl⟩ ?_
    rintro ls s1 l s2 - ⟨hended, heof, hnone⟩ hs
    cases hs with
    | recv | eof => cases hended
    | send | close => exact ⟨hended, by simpa using heof, by simp [hnone, Io.received]⟩
  exact ⟨fun hmem => Bool.false_ne_true (hended.2.symm.trans ((ended_iff h1).mpr hmem)), hnone.2⟩

/-- What went in and out of a conduit that holds `pending`. -/
structure Carried (pending : List α) (ls : List (Io α)) : Prop where
  stream : sent ls ++ pending = received ls
  close_last : ∀ before after, ls = before ++ .close :: after →
    after = [] ∧ sent before = received before ∧ .eof ∈ before ∧ .close ∉ before
  eof_once : ∀ before after, ls = before ++ .eof :: after →
    .eof ∉ before ∧ .eof ∉ after ∧ received after = []

theorem carried (h : Run Step fresh ls s) : Carried s.pending ls :=
  ⟨stream h, fun _ _ hls => close_last (hls ▸ h), fun _ _ hls => eof_once (hls ▸ h)⟩

/-- A conduit whose sink is closed has passed on all that came in. -/
theorem Carried.closed {pending : List α} (h : Carried pending ls) (hclose : .close ∈ ls) :
    pending = [] ∧ sent ls = received ls ∧ .eof ∈ ls := by
  obtain ⟨before, after, rfl⟩ := List.append_of_mem hclose
  obtain ⟨rfl, hall, heof, -⟩ := h.close_last before after rfl
  have hstream := h.stream
  rw [sent_snoc, received_snoc, hall] at hstream
  refine ⟨?_, ?_, List.mem_append_left _ heof⟩
  · simpa [Io.sent, Io.received] using hstream
  · rw [sent_snoc, received_snoc, hall]
    rfl

/-! ### Conduits in series -/

/-- The connection from one conduit to the next: it keeps the order, and it ends behind all that was
sent, when the first conduit has closed it or is `gone`. -/
structure Feeds (gone : Prop) (ls ls' : List (Io α)) : Prop where
  stream : received ls' <+: sent ls
  eof : .eof ∈ ls' → received ls' = sent ls ∧ (.close ∈ ls ∨ gone)

/-- A conduit of a series. -/
structure Stage (α : Type) where
  pending : List α
  ios : List (Io α)
  gone : Prop
  carried : Carried pending ios

abbrev Stage.Feeds (a b : Stage α) : Prop := Conduit.Feeds a.gone a.ios b.ios

variable {stages : List (Stage α)} (first last : Stage α)

/-- A series of conduits passes on, in order, what comes in. -/
theorem series_stream (h : stages.IsChain Stage.Feeds) (hfirst : stages.head? = some first)
    (hlast : stages.getLast? = some last) : sent last.ios <+: received first.ios := by
  induction stages generalizing first with
  | nil => cases hfirst
  | cons a stages ih =>
    obtain rfl : a = first := Option.some.inj hfirst
    have ha : sent a.ios <+: received a.ios := ⟨_, a.carried.stream⟩
    cases stages with
    | nil =>
      obtain rfl : a = last := Option.some.inj hlast
      exact ha
    | cons b stages =>
      rw [List.isChain_cons_cons] at h
      rw [List.getLast?_cons_cons] at hlast
      exact ((ih b h.2 rfl hlast).trans h.1.stream).trans ha

/-- If the last sink of a series is closed and no earlier conduit is gone, all that came in from a
source that has ended has gone out, and nothing is pending anywhere. -/
theorem series_closed (h : stages.IsChain Stage.Feeds) (hfirst : stages.head? = some first)
    (hlast : stages.getLast? = some last) (hclose : .close ∈ last.ios)
    (hgone : ∀ s ∈ stages.dropLast, ¬ s.gone) :
    sent last.ios = received first.ios ∧ .eof ∈ first.ios ∧ ∀ s ∈ stages, s.pending = [] := by
  induction stages generalizing first with
  | nil => cases hfirst
  | cons a stages ih =>
    obtain rfl : a = first := Option.some.inj hfirst
    cases stages with
    | nil =>
      obtain rfl : a = last := Option.some.inj hlast
      obtain ⟨hpending, hall, heof⟩ := a.carried.closed hclose
      exact ⟨hall, heof, by simpa using hpending⟩
    | cons b stages =>
      rw [List.isChain_cons_cons] at h
      rw [List.getLast?_cons_cons] at hlast
      rw [List.dropLast_cons_cons, List.forall_mem_cons] at hgone
      obtain ⟨hall, heof, hpending⟩ := ih b h.2 rfl hlast hgone.2
      -- the end of the connection comes from a half-close
      obtain ⟨hfed, hclosed⟩ := h.1.eof heof
      obtain ⟨hpending', hall', heof'⟩ := a.carried.closed (hclosed.resolve_right hgone.1)
      exact ⟨hall.trans (hfed.trans hall'), heof', List.forall_mem_cons.mpr ⟨hpending', hpending⟩⟩

end Conduit
