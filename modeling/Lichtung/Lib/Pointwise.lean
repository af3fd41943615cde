import Mathlib

/-!
# Relations taken pointwise

Lists, functions and ordered maps whose entries are related one by one.

Principal results: `getElem?`, `set` and `eraseIdx` (lists), `update` (functions), `mem_iff` and
`keys_eq` (maps).
-/

namespace Lichtung.Pointwise

open Option (Rel)

variable {α β : Type*} {R : α → β → Prop}

/-! ## Lists -/

theorem getElem? : ∀ {l : List α} {l' : List β}, List.Forall₂ R l l' → ∀ k : Nat, Rel R l[k]? l'[k]?
  | _, _, .nil, _ => .none
  | _, _, .cons h _, 0 => .some h
  | _, _, .cons _ h, k + 1 => by simpa using getElem? h k

theorem set {x : α} {x' : β} (hx : R x x') : ∀ {l : List α} {l' : List β}, List.Forall₂ R l l' →
    ∀ k : Nat, List.Forall₂ R (l.set k x) (l'.set k x')
  | _, _, .nil, _ => .nil
  | _, _, .cons _ h, 0 => .cons hx h
  | _, _, .cons h hs, k + 1 => .cons h (set hx hs k)

theorem eraseIdx : ∀ {l : List α} {l' : List β}, List.Forall₂ R l l' → ∀ k : Nat,
    List.Forall₂ R (l.eraseIdx k) (l'.eraseIdx k)
  | _, _, .nil, _ => .nil
  | _, _, .cons _ h, 0 => h
  | _, _, .cons h hs, k + 1 => .cons h (eraseIdx hs k)

/-! ## Functions -/

theorem update {ι : Type*} [DecidableEq ι] {γ δ : ι → Type*} {R : ∀ i, γ i → δ i → Prop}
    {f : ∀ i, γ i} {g : ∀ i, δ i} (h : ∀ i, R i (f i) (g i)) (k : ι) {x : γ k} {y : δ k}
    (hxy : R k x y) (i : ι) : R i (Function.update f k x i) (Function.update g k y i) := by
  by_cases hi : i = k
  · subst hi
    simpa using hxy
  · simpa [hi] using h i

/-! ## Maps -/

section Maps

variable {K : Type*} {cmp : K → K → Ordering} [Std.TransCmp cmp] {m : Std.ExtTreeMap K α cmp}
  {m' : Std.ExtTreeMap K β cmp} (h : ∀ k : K, Rel R m[k]? m'[k]?)
include h

theorem mem_iff (k : K) : k ∈ m ↔ k ∈ m' := by
  have hk := h k
  rw [Std.ExtTreeMap.mem_iff_isSome_getElem?, Std.ExtTreeMap.mem_iff_isSome_getElem?]
  generalize m[k]? = o, m'[k]? = o' at hk
  cases hk with
  | none => simp
  | some _ => simp

/-- Maps with related values list the same keys. -/
theorem keys_eq [Std.LawfulEqCmp cmp] : m.keys = m'.keys := by
  have hunit : m.map (fun _ _ => ()) = m'.map fun _ _ => () := by
    refine Std.ExtTreeMap.ext_getElem? fun k => ?_
    have hk := h k
    rw [Std.ExtTreeMap.getElem?_map, Std.ExtTreeMap.getElem?_map]
    generalize m[k]? = o, m'[k]? = o' at hk
    cases hk with
    | none => rfl
    | some _ => rfl
  have hkeys := congrArg Std.ExtTreeMap.keys hunit
  rwa [Std.ExtTreeMap.keys_map, Std.ExtTreeMap.keys_map] at hkeys

theorem insert [Std.LawfulEqCmp cmp] (k : K) {x : α} {x' : β} (hx : R x x') (j : K) :
    Rel R (m.insert k x)[j]? (m'.insert k x')[j]? := by
  rw [Std.ExtTreeMap.getElem?_insert, Std.ExtTreeMap.getElem?_insert]
  split
  · exact .some hx
  · exact h j

end Maps

end Lichtung.Pointwise
