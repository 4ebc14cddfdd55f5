import Silksocks.Lib.Chains

/-! Queues that are linked lists: a pointer to the first node, a pointer to the last one, and a link
in each node to the one behind it.  The pointer to the last node means nothing while the queue is
empty. -/

namespace LinkedQueue

open Chains

structure Queue where
  first : Option Nat
  last : Option Nat
  next : Nat → Option Nat

/-- The nodes of the queue are those of `l`, in this order. -/
structure Repr (q : Queue) (l : List Nat) : Prop where
  linked : Linked q.next q.first l
  last : ∀ i ∈ l.getLast?, q.last = some i

namespace Queue

/-- The empty queue, with any pointer to a last node. -/
def empty (last : Option Nat) (next : Nat → Option Nat) : Queue := ⟨none, last, next⟩

/-- The queue of one node, whose link is cleared. -/
def single (q : Queue) (i : Nat) : Queue where
  first := some i
  last := some i
  next := Function.update q.next i none

/-- Put the node `i` behind the last one, which is `r`. -/
def append (q : Queue) (r i : Nat) : Queue where
  first := q.first
  last := some i
  next := Function.update (Function.update q.next i none) r (some i)

/-- Take out the first node, which is `i`. -/
def pop (q : Queue) (i : Nat) : Queue := { q with first := q.next i }

end Queue

variable {q : Queue} {l : List Nat} {i r : Nat}

theorem linked_append {next next' : Nat → Option Nat} {p : Option Nat} (h : Linked next p l)
    (hlast : l.getLast? = some r) (hsame : ∀ j ∈ l, j ≠ r → next' j = next j)
    (hr : next' r = some i) (hi : next' i = none) : Linked next' p (l ++ [i]) := by
  induction l generalizing p with
  | nil => simp at hlast
  | cons j l ih =>
    obtain ⟨rfl, hl⟩ := h
    refine ⟨rfl, ?_⟩
    cases l with
    | nil =>
      obtain rfl : j = r := by simpa using hlast
      exact ⟨hr, hi⟩
    | cons k l =>
      have hlast' : (k :: l).getLast? = some r := by rwa [List.getLast?_cons_cons] at hlast
      have hj : j ≠ r := by
        rintro rfl
        have hmem : j ∈ k :: l := List.mem_of_getLast? hlast'
        exact (List.nodup_cons.mp (Linked.nodup (p := some j) (l := j :: k :: l) ⟨rfl, hl⟩)).1 hmem
      rw [hsame j List.mem_cons_self hj]
      exact ih hl hlast' fun m hm => hsame m (List.mem_cons_of_mem j hm)

namespace Repr

theorem empty (last : Option Nat) (next : Nat → Option Nat) : Repr (.empty last next) [] :=
  ⟨rfl, by simp⟩

theorem first_eq (h : Repr q l) : q.first = l.head? := by
  cases l with
  | nil => exact h.linked
  | cons i l => exact h.linked.1

theorem single (q : Queue) (i : Nat) : Repr (q.single i) [i] :=
  ⟨⟨rfl, by simp [Queue.single, Linked]⟩, by simp [Queue.single]⟩

theorem append (h : Repr q l) (hr : l.getLast? = some r) (hi : i ∉ l) :
    Repr (q.append r i) (l ++ [i]) := by
  have hne : i ≠ r := fun he => hi (he ▸ List.mem_of_getLast? hr)
  refine ⟨linked_append h.linked hr (fun j hj hjr => ?_) ?_ ?_, by simp [Queue.append]⟩
  · have hji : j ≠ i := fun he => hi (he ▸ hj)
    simp [Queue.append, hjr, hji]
  · simp [Queue.append]
  · simp [Queue.append, hne]

theorem pop (h : Repr q (i :: l)) : Repr (q.pop i) l := by
  refine ⟨h.linked.2, fun j hj => h.last j ?_⟩
  cases l with
  | nil => simp at hj
  | cons k l => rwa [List.getLast?_cons_cons]

theorem nodup (h : Repr q l) : l.Nodup := h.linked.nodup

end Repr

end LinkedQueue
