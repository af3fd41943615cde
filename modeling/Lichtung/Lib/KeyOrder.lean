import Mathlib

/-!
# Lists in the order of a key

Lists whose elements have a key in a linear order: sorting by the key, lists already in its order,
and which elements of such a list are neighbours.

Principal results: `eq_insertionSort` (a strictly ordered list is the sorted list of its elements)
and `mem_zip_tail` (its neighbours are the pairs with no key between them).
-/

namespace Lichtung.KeyOrder

variable {β K : Type*} [LinearOrder K] {key : β → K} {l l' : List β}

theorem insertionSort_le (key : β → K) (l : List β) :
    (l.insertionSort fun a b => key a ≤ key b).Pairwise fun a b => key a ≤ key b := by
  have : Std.Total fun a b : β => key a ≤ key b := ⟨fun _ _ => le_total _ _⟩
  have : IsTrans β fun a b => key a ≤ key b := ⟨fun _ _ _ => le_trans⟩
  exact List.pairwise_insertionSort _ l

/-- An ordered list without a repeated key is strictly ordered. -/
theorem lt_of_nodup (h : l.Pairwise fun a b => key a ≤ key b) (hnd : (l.map key).Nodup) :
    l.Pairwise fun a b => key a < key b :=
  (h.and (List.pairwise_map.mp hnd)).imp fun hab => lt_of_le_of_ne hab.1 hab.2

theorem insertionSort_lt (h : (l.map key).Nodup) :
    (l.insertionSort fun a b => key a ≤ key b).Pairwise fun a b => key a < key b :=
  lt_of_nodup (insertionSort_le key l) (((List.perm_insertionSort _ l).map key).nodup_iff.mpr h)

/-- An ordered list without equal neighbours is strictly ordered. -/
theorem lt_of_isChain_ne : ∀ {l : List β}, l.Pairwise (fun a b => key a ≤ key b) →
    l.IsChain (fun a b => key a ≠ key b) → l.Pairwise fun a b => key a < key b
  | [], _, _ => .nil
  | [a], _, _ => List.pairwise_singleton _ a
  | a :: b :: l, hle, hne => by
    obtain ⟨ha, hle⟩ := List.pairwise_cons.mp hle
    obtain ⟨hab, hne⟩ := List.isChain_cons_cons.mp hne
    have ih := lt_of_isChain_ne hle hne
    have hlt : key a < key b := lt_of_le_of_ne (ha b (List.mem_cons_self ..)) hab
    refine List.pairwise_cons.mpr ⟨fun x hx => ?_, ih⟩
    rcases List.mem_cons.mp hx with rfl | hx
    · exact hlt
    · exact hlt.trans ((List.pairwise_cons.mp ih).1 x hx)

/-- In a strictly ordered list the key determines the element. -/
theorem eq_of_key (h : l.Pairwise fun a b => key a < key b) {a b : β} (ha : a ∈ l) (hb : b ∈ l)
    (hkey : key a = key b) : a = b := by
  have hnd : (l.map key).Nodup := List.pairwise_map.mpr (h.imp fun hab => ne_of_lt hab)
  exact List.inj_on_of_nodup_map hnd ha hb hkey

/-- Two ordered lists of the same elements, one of them strictly. -/
theorem eq_of_perm (hl : l.Pairwise fun a b => key a < key b)
    (hl' : l'.Pairwise fun a b => key a ≤ key b) (hp : l.Perm l') : l = l' := by
  refine hp.eq_of_pairwise (fun a b ha hb hab hba => ?_) (hl.imp fun hab => le_of_lt hab) hl'
  exact eq_of_key hl ha (hp.mem_iff.mpr hb) (le_antisymm hab hba)

/-- **A strictly ordered list is the sorted list of its elements.** -/
theorem eq_insertionSort (hl : l.Pairwise fun a b => key a < key b) (hp : l.Perm l') :
    l = l'.insertionSort fun a b => key a ≤ key b :=
  eq_of_perm hl (insertionSort_le key l') (hp.trans (List.perm_insertionSort _ l').symm)

/-- **The neighbours in a strictly ordered list are the pairs with no key between them.** -/
theorem mem_zip_tail : ∀ {l : List β} {a b : β}, l.Pairwise (fun x y => key x < key y) →
    ((a, b) ∈ l.zip l.tail ↔
      a ∈ l ∧ b ∈ l ∧ key a < key b ∧ ∀ c ∈ l, ¬ (key a < key c ∧ key c < key b))
  | [], _, _, _ => by simp
  | [x], a, b, _ => by
    refine iff_of_false (by simp) ?_
    rintro ⟨ha, hb, hlt, -⟩
    rw [List.mem_singleton.mp ha, List.mem_singleton.mp hb] at hlt
    exact lt_irrefl _ hlt
  | x :: y :: l, a, b, h => by
    obtain ⟨hx, hpw⟩ := List.pairwise_cons.mp h
    have hxy : key x < key y := hx y (List.mem_cons_self ..)
    have ih := mem_zip_tail (a := a) (b := b) hpw
    have hstep : (a, b) ∈ (x :: y :: l).zip (x :: y :: l).tail ↔
        (a = x ∧ b = y) ∨ (a, b) ∈ (y :: l).zip (y :: l).tail := by
      simp
    rw [hstep, ih]
    constructor
    · rintro (⟨rfl, rfl⟩ | ⟨ha, hb, hlt, hno⟩)
      · refine ⟨by simp, by simp, hxy, fun c hc => ?_⟩
        rcases List.mem_cons.mp hc with rfl | hc
        · exact fun hc => lt_irrefl _ hc.1
        · rcases List.mem_cons.mp hc with rfl | hc
          · exact fun hc => lt_irrefl _ hc.2
          · exact fun hbc => lt_asymm hbc.2 ((List.pairwise_cons.mp hpw).1 c hc)
      · refine ⟨List.mem_cons_of_mem _ ha, List.mem_cons_of_mem _ hb, hlt, fun c hc => ?_⟩
        rcases List.mem_cons.mp hc with rfl | hc
        · exact fun hac => lt_asymm hac.1 (hx a ha)
        · exact hno c hc
    · rintro ⟨ha, hb, hlt, hno⟩
      have hb' : b ∈ y :: l := by
        rcases List.mem_cons.mp hb with rfl | hb
        · -- nothing precedes the first element
          rcases List.mem_cons.mp ha with rfl | ha
          · exact absurd hlt (lt_irrefl _)
          · exact absurd hlt (lt_asymm (hx a ha))
        · exact hb
      rcases List.mem_cons.mp ha with rfl | ha
      · rcases List.mem_cons.mp hb' with rfl | hb'
        · exact .inl ⟨rfl, rfl⟩
        · exact absurd ⟨hxy, (List.pairwise_cons.mp hpw).1 b hb'⟩ (hno y (by simp))
      · exact .inr ⟨ha, hb', hlt, fun c hc => hno c (List.mem_cons_of_mem _ hc)⟩

end Lichtung.KeyOrder
