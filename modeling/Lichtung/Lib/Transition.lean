import Mathlib

/-!
# Labelled transition systems with an executable step

Runs of a partial step function, the invariant rule, and sums over a family of components of which
a step changes one.

Principal results: `Run.induct_along` (the invariant rule), `Run.cut` (every beginning of what a run
records is what a beginning of it records), `exec_rel` (simulation in lockstep) and `total_split`.
-/

namespace Lichtung.Transition

variable {S L : Type*} (step : S → L → Option S)

/-- Take the steps of a list of labels. -/
def exec : List L → S → Option S
  | [], s => some s
  | l :: ls, s => (step s l).bind (exec ls)

/-- The labels `ls` lead from `s` to `s'`. -/
def Run (s : S) (ls : List L) (s' : S) : Prop := exec step ls s = some s'

/-- Every label of `ls` meets `ok` in the state it is taken from. -/
def Along (ok : S → L → Prop) (ls : List L) (s : S) : Prop :=
  ∀ pre l post s₁, ls = pre ++ l :: post → Run step s pre s₁ → ok s₁ l

namespace Run

variable {step}

theorem nil (s : S) : Run step s [] s := rfl

theorem cons {s s₁ s' : S} {l : L} {ls : List L} (h : step s l = some s₁)
    (hr : Run step s₁ ls s') : Run step s (l :: ls) s' := by
  unfold Run exec
  rw [h]
  exact hr

theorem cons_iff {s s' : S} {l : L} {ls : List L} :
    Run step s (l :: ls) s' ↔ ∃ s₁, step s l = some s₁ ∧ Run step s₁ ls s' :=
  Option.bind_eq_some_iff

theorem append_iff {s' : S} : ∀ {ls ls' : List L} {s : S},
    Run step s (ls ++ ls') s' ↔ ∃ s₁, Run step s ls s₁ ∧ Run step s₁ ls' s'
  | [], _, _ => ⟨fun h => ⟨_, rfl, h⟩, fun ⟨_, h, h'⟩ => by cases h; exact h'⟩
  | l :: ls, ls', s => by
    rw [List.cons_append, cons_iff]
    constructor
    · rintro ⟨s₁, h, hr⟩
      obtain ⟨s₂, h1, h2⟩ := append_iff.mp hr
      exact ⟨s₂, .cons h h1, h2⟩
    · rintro ⟨s₂, h1, h2⟩
      obtain ⟨s₁, h, hr⟩ := cons_iff.mp h1
      exact ⟨s₁, h, append_iff.mpr ⟨s₂, hr, h2⟩⟩

theorem along_cons {s s₁ : S} {l : L} {ls : List L} {ok : S → L → Prop}
    (h : step s l = some s₁) :
    Along step ok (l :: ls) s ↔ ok s l ∧ Along step ok ls s₁ := by
  constructor
  · intro hok
    refine ⟨hok [] l ls s rfl (.nil s), fun pre l' post s₂ heq hpre => ?_⟩
    exact hok (l :: pre) l' post s₂ (by rw [heq]; rfl) (.cons h hpre)
  · rintro ⟨hl, hls⟩ pre l' post s₂ heq hpre
    cases pre with
    | nil =>
      obtain ⟨rfl, -⟩ := List.cons.inj heq
      cases hpre
      exact hl
    | cons l₀ pre =>
      obtain ⟨rfl, rfl⟩ := List.cons.inj heq
      obtain ⟨s₃, h3, h4⟩ := cons_iff.mp hpre
      cases h.symm.trans h3
      exact hls pre l' post s₂ rfl h4

theorem along_append {ok : S → L → Prop} : ∀ {ls ls' : List L} {s s₁ : S}, Run step s ls s₁ →
    Along step ok ls s → Along step ok ls' s₁ → Along step ok (ls ++ ls') s
  | [], _, _, _, hr, _, h' => by cases hr; exact h'
  | l :: ls, ls', s, _, hr, h, h' => by
    obtain ⟨s₂, h1, h2⟩ := cons_iff.mp hr
    obtain ⟨hl, hls⟩ := (along_cons h1).mp h
    exact (along_cons h1).mpr ⟨hl, along_append h2 hls h'⟩

/-- **The invariant rule**, for runs each of whose steps meets `ok`. -/
theorem induct_along {P : S → Prop} {ok : S → L → Prop}
    (hstep : ∀ {s l s'}, ok s l → step s l = some s' → P s → P s') :
    ∀ {ls : List L} {s s' : S}, Run step s ls s' → Along step ok ls s → P s → P s'
  | [], _, _, hr, _, h => by cases hr; exact h
  | l :: ls, _, _, hr, hok, h => by
    obtain ⟨s₁, h1, h2⟩ := cons_iff.mp hr
    obtain ⟨hl, hls⟩ := (along_cons h1).mp hok
    exact induct_along hstep h2 hls (hstep hl h1 h)

/-- The invariant rule for runs whose labels satisfy `ok`. -/
theorem induct_on {P : S → Prop} {ok : L → Prop}
    (hstep : ∀ {s l s'}, ok l → step s l = some s' → P s → P s') {ls : List L} {s s' : S}
    (hr : Run step s ls s') (hok : ∀ l ∈ ls, ok l) (h : P s) : P s' := by
  have halong : Along step (fun _ l => ok l) ls s := fun pre l post s₁ heq _ =>
    hok l (by rw [heq]; simp)
  exact induct_along hstep hr halong h

theorem induct {P : S → Prop} (hstep : ∀ {s l s'}, step s l = some s' → P s → P s')
    {ls : List L} {s s' : S} (hr : Run step s ls s') (h : P s) : P s' :=
  induct_on (fun (_ : True) => hstep) hr (fun _ _ => trivial) h

/-- The invariant rule, with what is known of every state the run goes through. -/
theorem induct_reachable {P Q : S → Prop} {s₀ : S} (hQ : ∀ {ls s}, Run step s₀ ls s → Q s)
    (hstep : ∀ {s l s'}, Q s → step s l = some s' → P s → P s') {ls : List L} {s : S}
    (hr : Run step s₀ ls s) (h : P s₀) : P s := by
  refine (induct (P := fun s => (∃ ls, Run step s₀ ls s) ∧ P s) ?_ hr ⟨⟨[], .nil s₀⟩, h⟩).2
  rintro s l s' hs ⟨⟨pre, hpre⟩, hP⟩
  exact ⟨⟨pre ++ [l], append_iff.mpr ⟨s, hpre, .cons hs (.nil s')⟩⟩, hstep (hQ hpre) hs hP⟩

/-! ### Records of a run -/

section Cut

variable {E : Type*} {f : S → List E}
  (hf : ∀ {s l s'}, step s l = some s' → f s' = f s ∨ ∃ e, f s' = f s ++ [e])
include hf

/-- A record that steps append to only grows. -/
theorem grows : ∀ {ls : List L} {s s' : S}, Run step s ls s' → f s <+: f s'
  | [], _, _, h => by cases h; exact List.prefix_rfl
  | l :: ls, s, s', h => by
    obtain ⟨s₁, h1, h2⟩ := cons_iff.mp h
    refine List.IsPrefix.trans ?_ (grows h2)
    rcases hf h1 with heq | ⟨e, heq⟩
    · rw [heq]
    · rw [heq]; exact List.prefix_append ..

/-- **Every beginning of the record is the record of a beginning of the run**, when no step appends
more than one entry. -/
theorem cut {es : List E} : ∀ {ls : List L} {s s' : S}, Run step s ls s' → f s <+: es →
    es <+: f s' → ∃ pre post s₁, ls = pre ++ post ∧ Run step s pre s₁ ∧ f s₁ = es
  | [], s, _, h, hle, hcut => by
    cases h
    exact ⟨[], [], s, rfl, .nil s, hle.eq_of_length_le hcut.length_le⟩
  | l :: ls, s, s', h, hle, hcut => by
    by_cases hs : f s = es
    · exact ⟨[], l :: ls, s, rfl, .nil s, hs⟩
    · obtain ⟨s₁, h1, h2⟩ := cons_iff.mp h
      have hle1 : f s₁ <+: es := by
        rcases hf h1 with heq | ⟨e, heq⟩
        · rwa [heq]
        · rcases List.prefix_or_prefix_of_prefix (grows hf h2) hcut with hp | hp
          · exact hp
          · -- the cut lies between the record and its next entry
            rw [heq] at hp ⊢
            rcases List.prefix_concat_iff.mp hp with hp | hp
            · rw [hp]
            · exact absurd (hle.eq_of_length_le hp.length_le) hs
      obtain ⟨pre, post, s₂, rfl, hpre, hs2⟩ := cut h2 hle1 hcut
      exact ⟨l :: pre, post, s₂, rfl, .cons h1 hpre, hs2⟩

end Cut

end Run

/-! ## Systems in step -/

variable {step} in
/-- **Systems whose steps are in step run in step**: where related labels take related states to
related states, or are refused by both, so do related sequences of labels. -/
theorem exec_rel {S' L' : Type*} {step' : S' → L' → Option S'} {R : S → S' → Prop}
    {Q : L → L' → Prop}
    (hstep : ∀ s s' l l', R s s' → Q l l' → Option.Rel R (step s l) (step' s' l')) :
    ∀ {ls : List L} {ls' : List L'}, List.Forall₂ Q ls ls' → ∀ {s : S} {s' : S'}, R s s' →
      Option.Rel R (exec step ls s) (exec step' ls' s')
  | _, _, .nil, _, _, h => .some h
  | l :: _, l' :: _, .cons hl hls, s, s', h => by
    have hrel := hstep s s' l l' h hl
    unfold exec
    generalize step s l = o, step' s' l' = o' at hrel
    cases hrel with
    | none => exact .none
    | some h' => exact exec_rel hstep hls h'

/-! ## Sums over components -/

section Total

variable {ι T M : Type*} [Fintype ι] [DecidableEq ι] [AddCommMonoid M]

/-- The sum of `f` over all components. -/
def total (f : T → M) (t : ι → T) : M := ∑ i, f (t i)

/-- **A sum splits into one component and a rest that does not depend on it.** -/
theorem total_split (f : T → M) (t : ι → T) (i : ι) :
    ∃ rest, total f t = f (t i) + rest ∧
      ∀ v, total f (Function.update t i v) = f v + rest := by
  refine ⟨∑ x ∈ Finset.univ.erase i, f (t x),
    (Finset.add_sum_erase _ _ (Finset.mem_univ i)).symm, fun v => ?_⟩
  unfold total
  rw [← Finset.add_sum_erase _ _ (Finset.mem_univ i), Function.update_self]
  congr 1
  exact Finset.sum_congr rfl fun x hx => by
    rw [Function.update_of_ne (Finset.ne_of_mem_erase hx)]

omit [DecidableEq ι] in
theorem total_eq_zero {f : T → M} {t : ι → T} (h : ∀ i, f (t i) = 0) : total f t = 0 :=
  Finset.sum_eq_zero fun i _ => h i

/-- The same, where what a component counts for depends on which one it is. -/
theorem sum_update {f : ι → T → M} (t : ι → T) (i : ι) (v : T) :
    ∑ j, f j (Function.update t i v j) + f i (t i) = ∑ j, f j (t j) + f i v := by
  have hrest : ∑ j ∈ Finset.univ.erase i, f j (Function.update t i v j) =
      ∑ j ∈ Finset.univ.erase i, f j (t j) := Finset.sum_congr rfl fun j hj => by
    rw [Function.update_of_ne (Finset.ne_of_mem_erase hj)]
  rw [← Finset.add_sum_erase _ _ (Finset.mem_univ i), hrest, Function.update_self,
    ← Finset.add_sum_erase _ (fun j => f j (t j)) (Finset.mem_univ i)]
  abel

end Total

end Lichtung.Transition
