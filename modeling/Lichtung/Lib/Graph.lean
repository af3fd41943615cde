import Mathlib

/-!
# Directed graphs given by an edge list

Reachability along a list of edges, topological orders, and a depth-first search with an explicit
stack and a set of seen nodes.

Principal results: `acyclic_of_lt` (edges that go up form no cycle), `Respects.lt_of_path` (a
topological order respects paths, not only edges) and `mem_explore` (the search finds exactly the
nodes at the end of a non-empty path).
-/

namespace Lichtung.EdgeGraph

open Relation

variable {V : Type*}

/-- There is an edge from `a` to `b`. -/
def Edge (edges : List (V × V)) (a b : V) : Prop := (a, b) ∈ edges

/-- There is a non-empty path from `a` to `b`. -/
abbrev Path (edges : List (V × V)) : V → V → Prop := TransGen (Edge edges)

def Acyclic (edges : List (V × V)) : Prop := ∀ v, ¬ Path edges v v

/-- Edges that go up in some strict order form no cycle. -/
theorem acyclic_of_lt {β : Type*} [Preorder β] {edges : List (V × V)} (f : V → β)
    (h : ∀ a b, Edge edges a b → f a < f b) : Acyclic edges := by
  intro v hv
  have hlt : ∀ a b, Path edges a b → f a < f b := by
    intro a b hab
    induction hab with
    | single he => exact h _ _ he
    | tail _ he ih => exact ih.trans (h _ _ he)
  exact lt_irrefl _ (hlt v v hv)

/-- Renaming the nodes apart keeps the paths. -/
theorem path_map {W : Type*} {f : V → W} (hf : Function.Injective f) {edges : List (V × V)}
    {a b : V} : Path (edges.map (Prod.map f f)) (f a) (f b) ↔ Path edges a b := by
  have hedge : ∀ {a : V} {w : W}, Edge (edges.map (Prod.map f f)) (f a) w →
      ∃ b, Edge edges a b ∧ w = f b := by
    intro a w h
    obtain ⟨⟨u, v⟩, huv, he⟩ := List.mem_map.mp h
    obtain ⟨hu, rfl⟩ := Prod.mk.inj he
    exact ⟨v, hf hu ▸ huv, rfl⟩
  constructor
  · intro h
    have hend : ∀ w, Path (edges.map (Prod.map f f)) (f a) w → ∃ b, Path edges a b ∧ w = f b := by
      intro w hw
      induction hw with
      | single he =>
        obtain ⟨b, hab, rfl⟩ := hedge he
        exact ⟨b, .single hab, rfl⟩
      | tail _ he ih =>
        obtain ⟨b, hab, rfl⟩ := ih
        obtain ⟨c, hbc, rfl⟩ := hedge he
        exact ⟨c, hab.tail hbc, rfl⟩
    obtain ⟨b', hab, hb⟩ := hend _ h
    rwa [hf hb]
  · have hmap : ∀ u v, Edge edges u v → Edge (edges.map (Prod.map f f)) (f u) (f v) :=
      fun u v he => List.mem_map_of_mem (f := Prod.map f f) he
    exact fun h => TransGen.lift f hmap _ _ h

/-- Along the neighbour pairs of a list every element reaches every later one. -/
theorem path_zip_tail : ∀ {l : List V} {a b : V}, [a, b].Sublist l → Path (l.zip l.tail) a b
  | [], _, _, h => by simp at h
  | [_], _, _, h => by simp at h
  | x :: y :: l, a, b, h => by
    have hmono : ∀ {u v}, Path ((y :: l).zip (y :: l).tail) u v →
        Path ((x :: y :: l).zip (x :: y :: l).tail) u v := fun hp =>
      TransGen.mono (fun _ _ he => List.mem_cons_of_mem _ he) _ _ hp
    have hxy : Edge ((x :: y :: l).zip (x :: y :: l).tail) x y := List.mem_cons_self ..
    cases h with
    | cons _ h => exact hmono (path_zip_tail h)
    | cons_cons _ h =>
      rcases List.mem_cons.mp (List.singleton_sublist.mp h) with rfl | hb
      · exact .single hxy
      · exact .head hxy (hmono (path_zip_tail ((List.singleton_sublist.mpr hb).cons_cons y)))

/-! ## Topological orders -/

/-- Every node of the list comes after all its direct predecessors. -/
def Respects (edges : List (V × V)) (order : List V) : Prop :=
  ∀ pre v post, order = pre ++ v :: post → ∀ u, Edge edges u v → u ∈ pre

theorem Respects.nil (edges : List (V × V)) : Respects edges [] := by
  intro pre v post h
  simp at h

theorem Respects.snoc {edges : List (V × V)} {order : List V} {v : V} (h : Respects edges order)
    (hv : ∀ u, Edge edges u v → u ∈ order) : Respects edges (order ++ [v]) := by
  intro pre w post he u hu
  rcases post.eq_nil_or_concat with rfl | ⟨post, x, rfl⟩
  · obtain ⟨rfl, hw⟩ := List.append_inj' he rfl
    obtain rfl : v = w := by simpa using hw
    exact hv u hu
  · rw [List.concat_eq_append, ← List.cons_append, ← List.append_assoc] at he
    exact h pre w post (List.append_inj' he rfl).1 u hu

/-- Each node has its predecessors among the nodes before it. -/
theorem respects_iff_take {edges : List (V × V)} {order : List V} : Respects edges order ↔
    ∀ i : Fin order.length, ∀ e ∈ edges, e.2 = order[i] → e.1 ∈ order.take i := by
  constructor
  · intro h i e he hv
    have hsplit : order = order.take i ++ order[i] :: order.drop (i + 1) := by simp
    refine h _ _ _ hsplit e.1 ?_
    rw [← hv]
    exact he
  · intro h pre v post he u hu
    subst he
    have := h ⟨pre.length, by simp⟩ (u, v) hu (by simp)
    simpa using this

variable [DecidableEq V]

instance (edges : List (V × V)) (order : List V) : Decidable (Respects edges order) :=
  decidable_of_iff _ respects_iff_take.symm

theorem Respects.lt_of_edge {edges : List (V × V)} {order : List V} (h : Respects edges order)
    {a b : V} (hb : b ∈ order) (he : Edge edges a b) :
    a ∈ order ∧ order.idxOf a < order.idxOf b := by
  obtain ⟨pre, post, rfl, hpre⟩ := List.eq_append_cons_of_mem hb
  have ha : a ∈ pre := h pre b post rfl a he
  refine ⟨List.mem_append_left _ ha, ?_⟩
  rw [List.idxOf_append_of_mem ha, List.idxOf_append_of_notMem hpre]
  exact Nat.lt_of_lt_of_le (List.idxOf_lt_length_iff.mpr ha) (Nat.le_add_right _ _)

/-- A topological order respects every path. -/
theorem Respects.lt_of_path {edges : List (V × V)} {order : List V} (h : Respects edges order)
    {a b : V} (hp : Path edges a b) (hb : b ∈ order) :
    a ∈ order ∧ order.idxOf a < order.idxOf b := by
  induction hp with
  | single he => exact h.lt_of_edge hb he
  | tail _ he ih =>
    obtain ⟨hm, hlt⟩ := h.lt_of_edge hb he
    obtain ⟨ha, hlt'⟩ := ih hm
    exact ⟨ha, hlt'.trans hlt⟩

/-! ## Adjacency lists -/

/-- The adjacency lists of an edge list, filled one edge at a time. -/
def successors (edges : List (V × V)) : V → List V :=
  edges.foldl (fun succ e => Function.update succ e.1 (succ e.1 ++ [e.2])) (fun _ => [])

theorem count_foldl_successors (a b : V) : ∀ (edges : List (V × V)) (succ : V → List V),
    List.count b (edges.foldl (fun (succ : V → List V) e =>
        Function.update succ e.1 (succ e.1 ++ [e.2])) succ a) =
      (succ a).count b + edges.count (a, b)
  | [], succ => by simp
  | (x, y) :: edges, succ => by
    rw [List.foldl_cons, count_foldl_successors a b edges, List.count_cons]
    by_cases hx : a = x
    · subst hx
      by_cases hy : y = b
      · subst hy; simp; omega
      · simp [hy]
    · simp [Function.update_of_ne hx, Ne.symm hx]

/-- A successor stands in its adjacency list once for each parallel edge. -/
theorem count_successors (edges : List (V × V)) (a b : V) :
    (successors edges a).count b = edges.count (a, b) := by
  simpa [successors] using count_foldl_successors a b edges (fun _ => [])

theorem mem_successors {edges : List (V × V)} {a b : V} :
    b ∈ successors edges a ↔ Edge edges a b := by
  rw [← List.count_pos_iff, count_successors, List.count_pos_iff, Edge]

/-! ## Depth-first search -/

/-- Mark and push every unseen node of a list, in order. -/
def pushUnseen : List V → Finset V × List V → Finset V × List V
  | [], st => st
  | v :: vs, (seen, stack) =>
    if v ∈ seen then pushUnseen vs (seen, stack) else pushUnseen vs (insert v seen, v :: stack)

/-- The search loop: pop a node, mark and push its unseen successors. -/
def explore (succ : V → List V) : ℕ → Finset V × List V → Finset V
  | 0, st => st.1
  | _ + 1, (seen, []) => seen
  | fuel + 1, (seen, u :: stack) => explore succ fuel (pushUnseen (succ u) (seen, stack))

/-- What `pushUnseen` does: it sees the whole list, and pushes each newly seen node once. -/
theorem pushUnseen_spec : ∀ (vs : List V) (seen : Finset V) (stack : List V),
    (∀ v, v ∈ (pushUnseen vs (seen, stack)).1 ↔ v ∈ seen ∨ v ∈ vs) ∧
    (∀ v, v ∈ (pushUnseen vs (seen, stack)).2 ↔ v ∈ stack ∨ (v ∈ vs ∧ v ∉ seen)) ∧
    (pushUnseen vs (seen, stack)).2.length + seen.card =
      stack.length + (pushUnseen vs (seen, stack)).1.card
  | [], seen, stack => by simp [pushUnseen]
  | v :: vs, seen, stack => by
    unfold pushUnseen
    split
    · rename_i hv
      obtain ⟨h1, h2, h3⟩ := pushUnseen_spec vs seen stack
      refine ⟨fun x => ?_, fun x => ?_, h3⟩
      · rw [h1, List.mem_cons]
        exact ⟨fun h => h.imp_right .inr, fun h => h.elim .inl fun h => h.elim (· ▸ .inl hv) .inr⟩
      · rw [h2, List.mem_cons]
        refine or_congr_right ⟨fun h => ⟨.inr h.1, h.2⟩, fun h => ⟨?_, h.2⟩⟩
        exact h.1.resolve_left fun he => h.2 (he ▸ hv)
    · rename_i hv
      obtain ⟨h1, h2, h3⟩ := pushUnseen_spec vs (insert v seen) (v :: stack)
      refine ⟨fun x => ?_, fun x => ?_, ?_⟩
      · rw [h1, Finset.mem_insert, List.mem_cons]; tauto
      · rw [h2, Finset.mem_insert, List.mem_cons, List.mem_cons]
        by_cases hx : x = v
        · subst hx; simp [hv]
        · simp [hx]
      · rw [Finset.card_insert_of_notMem hv, List.length_cons] at h3
        omega

/-- The invariant of the search from `s`: only reached nodes are seen, the stack holds reached
nodes, and a reached node off the stack has all its successors seen. -/
structure Exploring (succ : V → List V) (s : V) (seen : Finset V) (stack : List V) : Prop where
  sound : ∀ v ∈ seen, TransGen (fun a b => b ∈ succ a) s v
  onStack : ∀ v ∈ stack, v = s ∨ v ∈ seen
  closed : ∀ u, u = s ∨ u ∈ seen → u ∈ stack ∨ ∀ v ∈ succ u, v ∈ seen

theorem Exploring.step {succ : V → List V} {s u : V} {seen : Finset V} {stack : List V}
    (h : Exploring succ s seen (u :: stack)) :
    Exploring succ s (pushUnseen (succ u) (seen, stack)).1
      (pushUnseen (succ u) (seen, stack)).2 := by
  obtain ⟨h1, h2, -⟩ := pushUnseen_spec (succ u) seen stack
  have hu := h.onStack u (List.mem_cons_self ..)
  refine ⟨fun v hv => ?_, fun v hv => ?_, fun w hw => ?_⟩
  · rcases (h1 v).mp hv with hv | hv
    · exact h.sound v hv
    · rcases hu with rfl | hu
      · exact TransGen.single hv
      · exact (h.sound u hu).tail hv
  · rcases (h2 v).mp hv with hv | ⟨hv, -⟩
    · exact (h.onStack v (List.mem_cons_of_mem _ hv)).imp_right fun hs => (h1 v).mpr (.inl hs)
    · exact .inr ((h1 v).mpr (.inr hv))
  · by_cases hwu : w = u
    · subst hwu
      exact .inr fun v hv => (h1 v).mpr (.inr hv)
    · by_cases hws : w = s ∨ w ∈ seen
      · rcases h.closed w hws with hm | hc
        · rcases List.mem_cons.mp hm with rfl | hm
          · exact absurd rfl hwu
          · exact .inl ((h2 w).mpr (.inl hm))
        · exact .inr fun v hv => (h1 v).mpr (.inl (hc v hv))
      · -- a node seen just now is on the stack
        rw [not_or] at hws
        have hm : w ∈ succ u := ((h1 w).mp (hw.resolve_left hws.1)).resolve_left hws.2
        exact .inl ((h2 w).mpr (.inr ⟨hm, hws.2⟩))

omit [DecidableEq V] in
theorem Exploring.of_empty_stack {succ : V → List V} {s : V} {seen : Finset V}
    (h : Exploring succ s seen []) (v : V) :
    v ∈ seen ↔ TransGen (fun a b => b ∈ succ a) s v := by
  refine ⟨h.sound v, fun hp => ?_⟩
  have hnext : ∀ u, u = s ∨ u ∈ seen → ∀ v ∈ succ u, v ∈ seen := fun u hu =>
    (h.closed u hu).resolve_left List.not_mem_nil
  induction hp with
  | single he => exact hnext s (.inl rfl) _ he
  | tail _ he ih => exact hnext _ (.inr ih) _ he

theorem explore_spec [Fintype V] {succ : V → List V} {s : V} :
    ∀ (fuel : ℕ) (seen : Finset V) (stack : List V), Exploring succ s seen stack →
      stack.length + Fintype.card V ≤ fuel + seen.card →
      ∀ v, v ∈ explore succ fuel (seen, stack) ↔ TransGen (fun a b => b ∈ succ a) s v
  | 0, seen, stack, h, hf, v => by
    have hc := Finset.card_le_univ seen
    obtain rfl : stack = [] := List.eq_nil_of_length_eq_zero (by omega)
    exact h.of_empty_stack v
  | _ + 1, seen, [], h, _, v => h.of_empty_stack v
  | fuel + 1, seen, u :: stack, h, hf, v => by
    obtain ⟨-, -, h3⟩ := pushUnseen_spec (succ u) seen stack
    refine explore_spec fuel _ _ h.step ?_ v
    simp only [List.length_cons] at hf
    omega

/-- **The search from `s` sees exactly the nodes at the end of a non-empty path from `s`.** -/
theorem mem_explore [Fintype V] (edges : List (V × V)) (s v : V) :
    v ∈ explore (successors edges) (Fintype.card V + 1) (∅, [s]) ↔ Path edges s v := by
  have hinit : Exploring (successors edges) s ∅ [s] :=
    ⟨by simp, by simp, fun u hu => .inl (by simpa using hu)⟩
  rw [explore_spec _ ∅ [s] hinit (by simp [Nat.add_comm])]
  simp only [mem_successors]

end Lichtung.EdgeGraph
