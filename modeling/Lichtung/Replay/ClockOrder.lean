import Lichtung.Replay.Reexec

/-!
# One order on clocks

The code compares clocks in three places: `partial_cmp` on `VectorClock` (with `happens_before` and
`concurrent` read off it), `==` on `VectorClock`, and `hb_strict` on the wire maps of the replay.
All three are the product order on components.  On clocks built with the mutators the wire form is
canonical: `==` is equality of the maps, and `vclock_from` gives the clock back.

Principal results: `clock_orders_agree` and `merge_lub_canonical`.
-/

namespace Lichtung

namespace VectorClock

variable (a b c : VectorClock)

theorem eq_iff_partialCmp : a.eq b = true ↔ a.partialCmp b = some .eq := by
  rw [eq_iff, partialCmp_eq, ProductOrder.partialCompare_eq]

theorem happensBefore_irrefl : a.happensBefore a = false := by
  rw [Bool.eq_false_iff, ne_eq, happensBefore_iff]
  exact lt_irrefl _

theorem happensBefore_trans (hab : a.happensBefore b = true) (hbc : b.happensBefore c = true) :
    a.happensBefore c = true := by
  rw [happensBefore_iff] at *
  exact hab.trans hbc

/-- Exactly one of the four relations holds. -/
theorem count_relations : [a.happensBefore b, b.happensBefore a, a.eq b, a.concurrent b].count true
    = 1 := by
  have hlt : a.happensBefore b = (a.partialCmp b == some .lt) := rfl
  have hgt : b.happensBefore a = (a.partialCmp b == some .gt) := by
    rw [Bool.eq_iff_iff, happensBefore_iff, beq_iff_eq, partialCmp_eq,
      ProductOrder.partialCompare_gt]
  have heq : a.eq b = (a.partialCmp b == some .eq) := by
    rw [Bool.eq_iff_iff, beq_iff_eq]
    exact eq_iff_partialCmp a b
  have hnone : a.concurrent b = (a.partialCmp b).isNone := rfl
  rw [hlt, hgt, heq, hnone]
  rcases a.partialCmp b with _ | _ | _ | _ <;> rfl

/-- The comparison depends on the components alone. -/
theorem partialCmp_congr {a a' b b' : VectorClock} (ha : a.eq a' = true) (hb : b.eq b' = true) :
    a.partialCmp b = a'.partialCmp b' := by
  rw [eq_iff] at ha hb
  rw [partialCmp_eq, partialCmp_eq, ha, hb]

theorem eq_congr {a a' b b' : VectorClock} (ha : a.eq a' = true) (hb : b.eq b' = true) :
    a.eq b = a'.eq b' := by
  rw [Bool.eq_iff_iff, eq_iff_partialCmp, eq_iff_partialCmp, partialCmp_congr ha hb]

/-! ### Pointwise readings -/

theorem partialCmp_equal_iff : a.partialCmp b = some .eq ↔ ∀ k, a.get k = b.get k := by
  rw [partialCmp_eq, ProductOrder.partialCompare_eq, funext_iff]

theorem partialCmp_less_iff : a.partialCmp b = some .lt ↔
    (∀ k, a.get k ≤ b.get k) ∧ ∃ k, a.get k < b.get k := by
  rw [partialCmp_eq, ProductOrder.partialCompare_lt, Pi.lt_def, Pi.le_def]

theorem partialCmp_greater_iff : a.partialCmp b = some .gt ↔
    (∀ k, b.get k ≤ a.get k) ∧ ∃ k, b.get k < a.get k := by
  rw [partialCmp_eq, ProductOrder.partialCompare_gt, Pi.lt_def, Pi.le_def]

theorem partialCmp_none_iff : a.partialCmp b = none ↔
    (∃ k, a.get k < b.get k) ∧ ∃ k, b.get k < a.get k := by
  rw [partialCmp_eq, ProductOrder.partialCompare_none, ProductOrder.not_le_iff_exists_lt,
    ProductOrder.not_le_iff_exists_lt, and_comm]

end VectorClock

theorem get_vclockFrom (m : StringMap) (k : ActorId) : (vclockFrom m).get k = m.components k :=
  VectorClock.get_foldl_entries (f := fun _ x => x) VectorClock.get_set m (VectorClock.get_new k).symm

/-- **The order of the wire maps is the order of the clocks they are read into.** -/
theorem hbStrict_eq_happensBefore {m n : StringMap} {a b : VectorClock}
    (ha : a.get = m.components) (hb : b.get = n.components) :
    hbStrict m n = a.happensBefore b := by
  rw [Bool.eq_iff_iff, hbStrict_iff, VectorClock.happensBefore_iff, ha, hb]

/-- **The implementations of clock order agree with the product order.** -/
theorem clock_orders_agree :
    (∀ a b : VectorClock,
      (a.partialCmp b = some .eq ↔ ∀ k, a.get k = b.get k) ∧
      (a.partialCmp b = some .lt ↔ (∀ k, a.get k ≤ b.get k) ∧ ∃ k, a.get k < b.get k) ∧
      (a.partialCmp b = some .gt ↔ (∀ k, b.get k ≤ a.get k) ∧ ∃ k, b.get k < a.get k) ∧
      (a.partialCmp b = none ↔ (∃ k, a.get k < b.get k) ∧ ∃ k, b.get k < a.get k)) ∧
    (∀ a b : VectorClock, a.eq b = true ↔ a.partialCmp b = some .eq) ∧
    (∀ a b : VectorClock,
      [a.happensBefore b, b.happensBefore a, a.eq b, a.concurrent b].count true = 1) ∧
    (∀ a : VectorClock, a.happensBefore a = false) ∧
    (∀ a b c : VectorClock, a.happensBefore b = true → b.happensBefore c = true →
      a.happensBefore c = true) ∧
    (∀ a a' b b' : VectorClock, a.eq a' = true → b.eq b' = true →
      a.partialCmp b = a'.partialCmp b' ∧ a.eq b = a'.eq b' ∧
      a.happensBefore b = a'.happensBefore b' ∧ a.concurrent b = a'.concurrent b') ∧
    (∀ m n : StringMap, hbStrict m n = (vclockFrom m).happensBefore (vclockFrom n)) ∧
    (∀ a b : VectorClock, hbStrict a.toStringMap b.toStringMap = a.happensBefore b) := by
  refine ⟨fun a b => ⟨a.partialCmp_equal_iff b, a.partialCmp_less_iff b,
    a.partialCmp_greater_iff b, a.partialCmp_none_iff b⟩, VectorClock.eq_iff_partialCmp,
    VectorClock.count_relations, VectorClock.happensBefore_irrefl,
    VectorClock.happensBefore_trans, fun a a' b b' ha hb => ?_, fun m n => ?_, fun a b => ?_⟩
  · have hcmp : a.partialCmp b = a'.partialCmp b' := VectorClock.partialCmp_congr ha hb
    refine ⟨hcmp, VectorClock.eq_congr ha hb, ?_, ?_⟩
    · rw [VectorClock.happensBefore, VectorClock.happensBefore, hcmp]
    · rw [VectorClock.concurrent, VectorClock.concurrent, hcmp]
  · exact hbStrict_eq_happensBefore (funext (get_vclockFrom m)) (funext (get_vclockFrom n))
  · exact hbStrict_eq_happensBefore a.components_toStringMap.symm b.components_toStringMap.symm

/-! ## Merge -/

namespace VectorClock

theorem get_merge_eq_sup (v other : VectorClock) : (v.merge other).get = v.get ⊔ other.get :=
  funext (get_merge v other)

theorem vclockFrom_canonical (m : StringMap) : (vclockFrom m).Canonical := by
  unfold vclockFrom
  rw [Std.ExtTreeMap.foldl_eq_foldl_toList]
  have h : ∀ (l : List (ActorId × Nat)) (v : VectorClock), v.Canonical →
      (l.foldl (fun v p => v.set p.1 p.2) v).Canonical := by
    intro l
    induction l with
    | nil => exact fun v hv => hv
    | cons p l ih => exact fun v hv => ih _ (hv.set p.1 p.2)
  exact h _ _ canonical_new

/-- Reading back the wire form of a canonical clock. -/
theorem Canonical.vclockFrom_toStringMap {v : VectorClock} (hv : v.Canonical) :
    vclockFrom v.toStringMap = v :=
  (vclockFrom_canonical _).ext hv (funext (get_vclockFrom _))

/-- On canonical clocks `==` compares the stored entries. -/
theorem Canonical.toStringMap_eq_iff {v w : VectorClock} (hv : v.Canonical) (hw : w.Canonical) :
    v.toStringMap = w.toStringMap ↔ v.eq w = true := by
  rw [eq_iff]
  constructor
  · intro h
    rw [← components_toStringMap v, h, components_toStringMap]
  · intro h
    rw [hv.ext hw h]

end VectorClock

/-- **`merge` is the least upper bound, and the wire form of the clocks it is used on is
canonical.** -/
theorem merge_lub_canonical :
    (∀ a b : VectorClock, (a.merge b).ge a = true ∧ (a.merge b).ge b = true ∧
      ∀ c : VectorClock, c.ge a = true → c.ge b = true → (a.merge b).le c = true) ∧
    (∀ a b : VectorClock, (a.merge b).eq (b.merge a) = true) ∧
    (∀ a b c : VectorClock, ((a.merge b).merge c).eq (a.merge (b.merge c)) = true) ∧
    (∀ a : VectorClock, (a.merge a).eq a = true) ∧
    (∀ v : VectorClock, v.Reached → ∀ (k : ActorId) (x : Nat), v.entries[k]? = some x → x ≠ 0) ∧
    (∀ v w : VectorClock, v.Reached → w.Reached →
      (v.toStringMap = w.toStringMap ↔ v.eq w = true)) ∧
    (∀ v : VectorClock, v.Reached → (vclockFrom v.toStringMap).entries = v.entries) := by
  simp only [VectorClock.ge_iff, VectorClock.le_iff, VectorClock.eq_iff,
    VectorClock.get_merge_eq_sup]
  refine ⟨fun a b => ⟨le_sup_left, le_sup_right, fun c => sup_le⟩, fun a b => sup_comm _ _,
    fun a b c => sup_assoc _ _ _, fun a => sup_idem _, fun v hv => hv.canonical,
    fun v w hv hw => ?_, fun v hv => ?_⟩
  · rw [← VectorClock.eq_iff]
    exact hv.canonical.toStringMap_eq_iff hw.canonical
  · rw [hv.canonical.vclockFrom_toStringMap]

end Lichtung
