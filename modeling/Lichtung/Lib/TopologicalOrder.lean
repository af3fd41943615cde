import Lichtung.Lib.Graph

/-!
# Greedy topological orders

A topological order that always takes a node of least key among those whose predecessors have been
taken, and the nodes that no topological order takes.

Principal results: `Greedy.isLeast` (the greedy order has the lexicographically least sequence of
keys), `Greedy.unique` (so there is one of them), `Greedy.sorted` (where keys grow along the edges it is the sorted order) and
`blocked_of_closed` (nodes that always keep a predecessor are behind a cycle).
-/

namespace Lichtung.EdgeGraph

open Relation

variable {V K : Type*} [LinearOrder K] {edges : List (V × V)} {key : V → K}
  {order order' : List V}

/-- Not taken yet, and every predecessor has been. -/
def Ready (edges : List (V × V)) (taken : List V) (v : V) : Prop :=
  v ∉ taken ∧ ∀ u, Edge edges u v → u ∈ taken

/-- Every node is taken while no ready node has a smaller key. -/
def Greedy (key : V → K) (edges : List (V × V)) (order : List V) : Prop :=
  ∀ pre v post, order = pre ++ v :: post → ∀ w, Ready edges pre w → key v ≤ key w

theorem Greedy.nil (key : V → K) (edges : List (V × V)) : Greedy key edges [] := by
  intro pre v post h
  simp at h

theorem Greedy.snoc {v : V} (h : Greedy key edges order)
    (hv : ∀ w, Ready edges order w → key v ≤ key w) : Greedy key edges (order ++ [v]) := by
  intro pre x post he w hw
  rcases post.eq_nil_or_concat with rfl | ⟨post, y, rfl⟩
  · obtain ⟨rfl, hx⟩ := List.append_inj' he rfl
    obtain rfl : v = x := by simpa using hx
    exact hv w hw
  · rw [List.concat_eq_append, ← List.cons_append, ← List.append_assoc] at he
    exact h pre x post (List.append_inj' he rfl).1 w hw

/-- The next node of a topological order is ready. -/
theorem Respects.ready {pre post : List V} {v : V} (h : Respects edges order)
    (hnd : order.Nodup) (he : order = pre ++ v :: post) : Ready edges pre v := by
  refine ⟨fun hv => ?_, h pre v post he⟩
  rw [he] at hnd
  exact (List.nodup_append'.mp hnd).2.2 hv (List.mem_cons_self ..)

/-! ## Least among the topological orders -/

/-- After a common beginning the greedy order goes on with the smaller keys. -/
theorem Greedy.le_of_append (hkey : Function.Injective key) (hg : Greedy key edges order)
    (hr : Respects edges order') (hnd : order'.Nodup) : ∀ (pre : List V) {post post' : List V},
    order = pre ++ post → order' = pre ++ post' → post.length = post'.length →
      post.map key ≤ post'.map key
  | _, [], [], _, _, _ => le_refl _
  | pre, v :: post, w :: post', he, he', hlen => by
    rcases (hg pre v post he w (hr.ready hnd he')).lt_or_eq with hlt | heq
    · exact le_of_lt (List.Lex.rel hlt)
    · obtain rfl := hkey heq
      have hrest := hg.le_of_append hkey hr hnd (pre ++ [v]) (by simpa using he)
        (by simpa using he') (by simpa using hlen)
      exact List.cons_le_cons _ hrest

/-- **The greedy order is the least topological order**, comparing sequences of keys. -/
theorem Greedy.isLeast (hkey : Function.Injective key) (hg : Greedy key edges order)
    (hr : Respects edges order) (hnd : order.Nodup) :
    IsLeast {ks | ∃ order' : List V, order'.Perm order ∧ Respects edges order' ∧
      ks = order'.map key} (order.map key) := by
  refine ⟨⟨order, .refl _, hr, rfl⟩, ?_⟩
  rintro ks ⟨order', hp, hr', rfl⟩
  exact hg.le_of_append hkey hr' (hp.nodup_iff.mpr hnd) [] rfl rfl hp.length_eq.symm

/-- **Two topological orders of the same nodes that are both greedy are the same.** -/
theorem Greedy.unique (hkey : Function.Injective key) (hg : Greedy key edges order)
    (hg' : Greedy key edges order') (hr : Respects edges order) (hr' : Respects edges order')
    (hnd : order.Nodup) (hp : order.Perm order') : order = order' := by
  have hle := (hg.isLeast hkey hr hnd).2 ⟨order', hp.symm, hr', rfl⟩
  have hge := (hg'.isLeast hkey hr' (hp.nodup_iff.mp hnd)).2 ⟨order, hp, hr, rfl⟩
  exact List.map_injective_iff.mpr hkey (le_antisymm hle hge)

/-- A coarser key does not see the difference. -/
theorem Greedy.coarsen {K' : Type*} [LinearOrder K'] {key' : V → K'} (hg : Greedy key edges order)
    (hle : ∀ v w, key v ≤ key w → key' v ≤ key' w) : Greedy key' edges order :=
  fun pre v post he w hw => hle v w (hg pre v post he w hw)

/-! ## Under other names -/

section Rename

variable {W : Type*} (σ : V ≃ W) {edges' : List (W × W)}
  (hedge : ∀ u v, Edge edges u v ↔ Edge edges' (σ u) (σ v))
include hedge

omit [LinearOrder K] in
theorem Respects.rename (h : Respects edges order) : Respects edges' (order.map σ) := by
  intro pre w post he u hu
  obtain ⟨pre, rest, rfl, rfl, hrest⟩ := List.map_eq_append_iff.mp he
  obtain ⟨v, post, rfl, rfl, rfl⟩ := List.map_eq_cons_iff.mp hrest
  obtain ⟨u, rfl⟩ := σ.surjective u
  exact List.mem_map_of_mem (h pre v post rfl u ((hedge u v).mpr hu))

omit [LinearOrder K] in
theorem Path.rename {u v : V} : Path edges u v ↔ Path edges' (σ u) (σ v) := by
  constructor
  · intro h
    induction h with
    | single he => exact .single ((hedge _ _).mp he)
    | tail _ he ih => exact ih.tail ((hedge _ _).mp he)
  · intro h
    have hback : ∀ w, Path edges' (σ u) w → Path edges u (σ.symm w) := by
      intro w hw
      induction hw with
      | single he =>
        refine .single ((hedge _ _).mpr ?_)
        rwa [σ.apply_symm_apply]
      | tail _ he ih =>
        refine ih.tail ((hedge _ _).mpr ?_)
        rwa [σ.apply_symm_apply, σ.apply_symm_apply]
    have := hback _ h
    rwa [σ.symm_apply_apply] at this

omit [LinearOrder K] in
theorem Ready.rename {taken : List V} {v : V} : Ready edges' (taken.map σ) (σ v) ↔
    Ready edges taken v := by
  unfold Ready
  rw [List.mem_map_of_injective σ.injective]
  refine and_congr_right fun _ => ⟨fun h u hu => ?_, fun h u hu => ?_⟩
  · exact (List.mem_map_of_injective σ.injective).mp (h (σ u) ((hedge u v).mp hu))
  · obtain ⟨u, rfl⟩ := σ.surjective u
    exact List.mem_map_of_mem (h u ((hedge u v).mpr hu))

theorem Greedy.rename {key' : W → K} (hkey : ∀ v, key' (σ v) = key v)
    (h : Greedy key edges order) : Greedy key' edges' (order.map σ) := by
  intro pre w post he x hx
  obtain ⟨pre, rest, rfl, rfl, hrest⟩ := List.map_eq_append_iff.mp he
  obtain ⟨v, post, rfl, rfl, rfl⟩ := List.map_eq_cons_iff.mp hrest
  obtain ⟨x, rfl⟩ := σ.surjective x
  rw [hkey, hkey]
  exact h pre v post rfl x ((Ready.rename σ hedge).mp hx)

end Rename

/-! ## Sorted where keys grow along the edges -/

section Growing

variable (hup : ∀ u v, Edge edges u v → key u < key v) (hg : Greedy key edges order)
  (hnd : order.Nodup) (hclosed : ∀ u v, Edge edges u v → v ∈ order → u ∈ order)
include hup hg hnd hclosed

/-- The least of the nodes left is ready, so none of them has a smaller key than the next. -/
theorem Greedy.le_of_left {pre post : List V} {v : V} (he : order = pre ++ v :: post) :
    ∀ w ∈ v :: post, key v ≤ key w := by
  intro w hw
  obtain ⟨m, hm, hmin⟩ := Set.exists_min_image {w | w ∈ v :: post} key (List.finite_toSet _)
    ⟨v, List.mem_cons_self ..⟩
  rw [he] at hnd
  refine (hg pre v post he m ⟨fun hpre => ?_, fun u hu => ?_⟩).trans (hmin w hw)
  · exact (List.nodup_append'.mp hnd).2.2 hpre hm
  · have hmem := hclosed u m hu (he ▸ List.mem_append_right _ hm)
    rw [he] at hmem
    exact (List.mem_append.mp hmem).resolve_right fun hleft =>
      (hup u m hu).not_ge (hmin u hleft)

/-- **Where keys grow along the edges the greedy order is the sorted order.** -/
theorem Greedy.sorted : order.Pairwise fun u v => key u ≤ key v := by
  have hpost : ∀ post pre, order = pre ++ post → post.Pairwise fun u v => key u ≤ key v := by
    intro post
    induction post with
    | nil => exact fun _ _ => .nil
    | cons v post ih =>
      intro pre he
      refine List.pairwise_cons.mpr ⟨fun w hw => ?_, ih (pre ++ [v]) (by simpa using he)⟩
      exact Greedy.le_of_left hup hg hnd hclosed he w (List.mem_cons_of_mem _ hw)
  exact hpost order [] rfl

end Growing

/-! ## Nodes behind a cycle -/

section Blocked

omit [LinearOrder K]

/-- On a cycle, or reachable from one. -/
def Blocked (edges : List (V × V)) (v : V) : Prop :=
  ∃ u, Path edges u u ∧ (u = v ∨ Path edges u v)

theorem Blocked.edge {u v : V} (h : Blocked edges u) (he : Edge edges u v) : Blocked edges v := by
  obtain ⟨c, hc, rfl | hp⟩ := h
  · exact ⟨c, hc, .inr (.single he)⟩
  · exact ⟨c, hc, .inr (hp.tail he)⟩

theorem acyclic_iff_not_blocked : Acyclic edges ↔ ∀ v, ¬ Blocked edges v := by
  constructor
  · rintro h v ⟨u, hu, -⟩
    exact h u hu
  · exact fun h v hv => h v ⟨v, hv, .inl rfl⟩

/-- No topological order takes a blocked node. -/
theorem Respects.not_blocked [DecidableEq V] (h : Respects edges order) {v : V} (hv : v ∈ order) :
    ¬ Blocked edges v := by
  rintro ⟨u, hu, hblock⟩
  have hmem : u ∈ order := by
    rcases hblock with rfl | hp
    · exact hv
    · exact (h.lt_of_path hp hv).1
  exact lt_irrefl _ (h.lt_of_path hu hmem).2

/-- **In a finite graph nodes that always keep a predecessor among themselves are blocked.** -/
theorem blocked_of_closed [Finite V] {S : Set V} (hS : ∀ v ∈ S, ∃ u ∈ S, Edge edges u v) :
    ∀ v ∈ S, Blocked edges v := by
  by_contra hne
  push Not at hne
  obtain ⟨v, hv, hfree⟩ := hne
  -- the free nodes of `S` have no cycle, so one of them is a source among them
  let R : {w : V // w ∈ S ∧ ¬ Blocked edges w} → {w : V // w ∈ S ∧ ¬ Blocked edges w} → Prop :=
    fun a b => Path edges a.1 b.1
  have : IsTrans _ R := ⟨fun _ _ _ => TransGen.trans⟩
  have : Std.Irrefl R := ⟨fun a ha => a.2.2 ⟨a.1, ha, .inl rfl⟩⟩
  have hwf : WellFounded R := Finite.wellFounded_of_trans_of_irrefl _
  obtain ⟨m, -, hmin⟩ := hwf.has_min Set.univ ⟨⟨v, hv, hfree⟩, trivial⟩
  obtain ⟨u, hu, he⟩ := hS m.1 m.2.1
  exact hmin ⟨u, hu, fun hb => m.2.2 (hb.edge he)⟩ trivial (.single he)

end Blocked

end Lichtung.EdgeGraph
