import Mathlib

/-!
# Priority queues

A min-heap over a linear order, as the sorted list of its elements: `pop` returns a least
element, and equal elements are indistinguishable, so this is what any binary heap computes.
-/

namespace Lichtung

/-- A min-heap: its elements in increasing order. -/
structure MinHeap (K : Type*) [LinearOrder K] where
  items : List K
  sorted : items.Pairwise (· ≤ ·)

namespace MinHeap

variable {K : Type*} [LinearOrder K]

def empty : MinHeap K := ⟨[], .nil⟩

def push (h : MinHeap K) (k : K) : MinHeap K :=
  ⟨h.items.orderedInsert (· ≤ ·) k, h.sorted.orderedInsert k _⟩

/-- Remove a least element. -/
def pop (h : MinHeap K) : Option (K × MinHeap K) :=
  match h with
  | ⟨[], _⟩ => none
  | ⟨k :: ks, hs⟩ => some (k, ⟨ks, (List.pairwise_cons.mp hs).2⟩)

@[simp] theorem items_empty : (empty : MinHeap K).items = [] := rfl

theorem items_push (h : MinHeap K) (k : K) : (h.push k).items.Perm (k :: h.items) :=
  List.perm_orderedInsert _ k h.items

@[simp] theorem mem_push {h : MinHeap K} {k x : K} :
    x ∈ (h.push k).items ↔ x = k ∨ x ∈ h.items := by
  rw [(items_push h k).mem_iff, List.mem_cons]

theorem pop_none {h : MinHeap K} (hp : h.pop = none) : h.items = [] := by
  obtain ⟨items, hs⟩ := h
  cases items with
  | nil => rfl
  | cons k ks => cases hp

/-- The popped element is a least one and the others stay. -/
theorem pop_some {h h' : MinHeap K} {k : K} (hp : h.pop = some (k, h')) :
    h.items = k :: h'.items ∧ ∀ x ∈ h'.items, k ≤ x := by
  obtain ⟨items, hs⟩ := h
  cases items with
  | nil => cases hp
  | cons y ys =>
    simp only [pop, Option.some.injEq, Prod.mk.injEq] at hp
    obtain ⟨rfl, rfl⟩ := hp
    exact ⟨rfl, (List.pairwise_cons.mp hs).1⟩

end MinHeap

end Lichtung
