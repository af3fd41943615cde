import Mathlib

/-!
# Comparing two functions by a scan over finitely many keys

In a product of linear orders two functions are equal, ordered one way, ordered the other way or
incomparable, and which of the four holds is decided by whether some key is smaller on the left
and whether some key is smaller on the right.  A scan over a list of keys finds out, provided the
functions agree at every key off the list.

Principal results: `partialCompare_pi` (the two existence questions decide the comparison) and
`exists_lt_iff_of_agreeOff` (a list that covers the differences is enough to ask them).
-/

namespace Lichtung.ProductOrder

/-! ## Partial comparison -/

section Compare

variable {α : Type*} [PartialOrder α]

open Classical in
/-- How two elements of a partial order compare, `none` when they do not. -/
noncomputable def partialCompare (x y : α) : Option Ordering :=
  if x = y then some .eq else if x < y then some .lt else if y < x then some .gt else none

theorem partialCompare_eq {x y : α} : partialCompare x y = some .eq ↔ x = y := by
  unfold partialCompare
  split_ifs <;> simp_all

theorem partialCompare_lt {x y : α} : partialCompare x y = some .lt ↔ x < y := by
  unfold partialCompare
  split_ifs with heq hlt hgt
  · simp [heq]
  · simp [hlt]
  · simp [hlt]
  · simp [hlt]

theorem partialCompare_gt {x y : α} : partialCompare x y = some .gt ↔ y < x := by
  unfold partialCompare
  split_ifs with heq hlt hgt
  · simp [heq]
  · simp [hlt.not_gt]
  · simp [hgt]
  · simp [hgt]

theorem partialCompare_none {x y : α} : partialCompare x y = none ↔ ¬ x ≤ y ∧ ¬ y ≤ x := by
  unfold partialCompare
  split_ifs with heq hlt hgt
  · simp [heq]
  · simp [hlt.le]
  · simp [hgt.le]
  · simp [le_iff_lt_or_eq, heq, hlt, hgt, Ne.symm heq]

end Compare

/-! ## Scanned keys -/

section Agree

variable {K V : Type*} {f g : K → V} {ks : List K}

/-- The functions agree at every key that is not listed. -/
def AgreeOff (ks : List K) (f g : K → V) : Prop := ∀ k, k ∉ ks → f k = g k

theorem AgreeOff.symm (h : AgreeOff ks f g) : AgreeOff ks g f :=
  fun k hk => (h k hk).symm

theorem forall_eq_iff_of_agreeOff (h : AgreeOff ks f g) :
    (∀ k ∈ ks, f k = g k) ↔ f = g := by
  constructor
  · intro hall
    funext k
    by_cases hk : k ∈ ks
    · exact hall k hk
    · exact h k hk
  · rintro rfl k -
    rfl

end Agree

/-! ## Products of linear orders -/

section Pi

variable {K V : Type*} [LinearOrder V] {f g : K → V}

/-- The comparison that two observations determine: something is smaller on the left, something
is smaller on the right. -/
def ofSeen : Bool → Bool → Option Ordering
  | false, false => some .eq
  | true, false => some .lt
  | false, true => some .gt
  | true, true => none

theorem not_le_iff_exists_lt : ¬ g ≤ f ↔ ∃ k, f k < g k := by
  simp [Pi.le_def]

/-- **Two existence questions decide a comparison of functions.** -/
theorem partialCompare_pi {less greater : Bool} (hless : less = true ↔ ∃ k, f k < g k)
    (hgreater : greater = true ↔ ∃ k, g k < f k) :
    partialCompare f g = ofSeen less greater := by
  rw [← not_le_iff_exists_lt] at hless hgreater
  cases less <;> cases greater <;> simp only [Bool.false_eq_true, false_iff, not_not, true_iff]
    at hless hgreater
  · exact partialCompare_eq.mpr (le_antisymm hgreater hless)
  · exact partialCompare_gt.mpr (lt_of_le_not_ge hless hgreater)
  · exact partialCompare_lt.mpr (lt_of_le_not_ge hgreater hless)
  · exact partialCompare_none.mpr ⟨hgreater, hless⟩

theorem exists_lt_iff_of_agreeOff {ks : List K} (h : AgreeOff ks f g) :
    (∃ k ∈ ks, f k < g k) ↔ ∃ k, f k < g k := by
  constructor
  · rintro ⟨k, -, hk⟩
    exact ⟨k, hk⟩
  · rintro ⟨k, hk⟩
    refine ⟨k, ?_, hk⟩
    by_contra hout
    exact hk.ne (h k hout)

theorem forall_le_iff_of_agreeOff {ks : List K} (h : AgreeOff ks f g) :
    (∀ k ∈ ks, f k ≤ g k) ↔ f ≤ g := by
  have hlt := not_congr (exists_lt_iff_of_agreeOff h.symm)
  simpa [Pi.le_def] using hlt

theorem lt_iff_of_agreeOff {ks : List K} (h : AgreeOff ks f g) :
    ((∀ k ∈ ks, f k ≤ g k) ∧ ∃ k ∈ ks, f k < g k) ↔ f < g := by
  rw [forall_le_iff_of_agreeOff h, exists_lt_iff_of_agreeOff h, Pi.lt_def]

end Pi

end Lichtung.ProductOrder
