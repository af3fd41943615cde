import Lichtung.Lib.MinHeap
import Lichtung.Lib.TopologicalOrder

/-!
# Kahn's algorithm with a priority queue

The loop that schedules the nodes of an edge list, least key first among those whose
predecessors have all been scheduled.  `key` orders the nodes and `node` reads the node back from
its key.

Principal results: `Inv.drain` (the loop keeps its invariant and ends with an empty queue),
`order_spec` and `mem_order` (on an acyclic edge list every node is scheduled, each after its
predecessors), `order_greedy` (least key first), `not_mem_order_iff` (the nodes left out are those
behind a cycle) and `Inv.tryDrain` (no in-degree is decremented below zero).
-/

namespace Lichtung.Kahn

open EdgeGraph

variable {V K : Type*} [DecidableEq V] [LinearOrder K]

structure State (V K : Type*) [LinearOrder K] where
  indeg : V → ℕ
  heap : MinHeap K
  order : List V

/-- In-degrees, one edge at a time. -/
def indegrees (edges : List (V × V)) : V → ℕ :=
  edges.foldl (fun indeg e => Function.update indeg e.2 (indeg e.2 + 1)) fun _ => 0

/-- Queue the nodes without predecessors. -/
def sources (key : V → K) (indeg : V → ℕ) : List V → MinHeap K → MinHeap K
  | [], heap => heap
  | v :: vs, heap => sources key indeg vs (if indeg v = 0 then heap.push (key v) else heap)

/-- Decrement each successor of a scheduled node; queue those that reach zero. -/
def release (key : V → K) : List V → State V K → State V K
  | [], st => st
  | v :: vs, st =>
    let d := st.indeg v - 1
    release key vs { st with
      indeg := Function.update st.indeg v d
      heap := if d = 0 then st.heap.push (key v) else st.heap }

/-- The main loop. -/
def drain (key : V → K) (node : K → V) (succ : V → List V) : ℕ → State V K → State V K
  | 0, st => st
  | fuel + 1, st =>
    match st.heap.pop with
    | none => st
    | some (k, heap) =>
      drain key node succ fuel
        (release key (succ (node k)) { st with heap := heap, order := st.order ++ [node k] })

/-- `release` with a subtraction that fails below zero. -/
def tryRelease (key : V → K) : List V → State V K → Option (State V K)
  | [], st => some st
  | v :: vs, st =>
    if st.indeg v = 0 then none
    else
      let d := st.indeg v - 1
      tryRelease key vs { st with
        indeg := Function.update st.indeg v d
        heap := if d = 0 then st.heap.push (key v) else st.heap }

/-- `drain` with a subtraction that fails below zero. -/
def tryDrain (key : V → K) (node : K → V) (succ : V → List V) : ℕ → State V K → Option (State V K)
  | 0, st => some st
  | fuel + 1, st =>
    match st.heap.pop with
    | none => some st
    | some (k, heap) =>
      (tryRelease key (succ (node k)) { st with
        heap := heap
        order := st.order ++ [node k] }).bind (tryDrain key node succ fuel)

theorem indegrees_foldl (v : V) : ∀ (edges : List (V × V)) (indeg : V → ℕ),
    edges.foldl (fun (indeg : V → ℕ) e => Function.update indeg e.2 (indeg e.2 + 1)) indeg v =
      indeg v + edges.countP fun e => e.2 = v
  | [], indeg => by simp
  | e :: edges, indeg => by
    rw [List.foldl_cons, indegrees_foldl v edges, List.countP_cons]
    by_cases h : e.2 = v
    · subst h; simp; omega
    · simp [h, Function.update_of_ne (Ne.symm h)]

theorem indegrees_eq (edges : List (V × V)) (v : V) :
    indegrees edges v = edges.countP fun e => e.2 = v := by
  simpa [indegrees] using indegrees_foldl v edges fun _ => 0

/-- The invariant of the loop.  `todo` are the successors of the last scheduled node whose
in-degree has not been decremented yet: empty at the head of the main loop. -/
structure Inv (edges : List (V × V)) (key : V → K) (node : K → V) (todo : List V)
    (st : State V K) : Prop where
  keys : ∀ k ∈ st.heap.items, key (node k) = k
  nodup : (st.order ++ st.heap.items.map node).Nodup
  indeg : ∀ v, st.indeg v = (edges.countP fun e => e.2 = v ∧ e.1 ∉ st.order) + todo.count v
  ready : ∀ v, v ∈ st.order ∨ v ∈ st.heap.items.map node ↔ st.indeg v = 0
  respects : Respects edges st.order

variable {edges : List (V × V)} {key : V → K} {node : K → V}

theorem countP_split (order : List V) {u : V} (hu : u ∉ order) (v : V) :
    ∀ edges : List (V × V), (edges.countP fun e => e.2 = v ∧ e.1 ∉ order) =
      (edges.countP fun e => e.2 = v ∧ e.1 ∉ order ++ [u]) + edges.count (u, v)
  | [] => rfl
  | (x, y) :: edges => by
    rw [List.countP_cons, List.countP_cons, List.count_cons, countP_split order hu v edges]
    by_cases hx : x = u <;> by_cases hy : y = v <;> by_cases ho : x ∈ order <;>
      simp_all <;> omega

theorem countP_pos_of_edge {order : List V} {u v : V} (he : Edge edges u v) (hu : u ∉ order) :
    0 < edges.countP fun e => e.2 = v ∧ e.1 ∉ order :=
  List.countP_pos_iff.mpr ⟨(u, v), he, by simpa using hu⟩

/-- The state after the first of the decrements still to be made. -/
def decrement (key : V → K) (v : V) (st : State V K) : State V K :=
  { st with
    indeg := Function.update st.indeg v (st.indeg v - 1)
    heap := if st.indeg v - 1 = 0 then st.heap.push (key v) else st.heap }

/-- A node whose in-degree is to be decremented has a predecessor left. -/
theorem Inv.pos {v : V} {vs : List V} {st : State V K} (h : Inv edges key node (v :: vs) st) :
    st.indeg v ≠ 0 := by
  have hv := h.indeg v
  rw [List.count_cons_self] at hv
  omega

/-- One decrement keeps the invariant: a node that reaches zero is queued. -/
theorem Inv.decrement (hkey : ∀ v, node (key v) = v) {v : V} {vs : List V} {st : State V K}
    (h : Inv edges key node (v :: vs) st) : Inv edges key node vs (Kahn.decrement key v st) := by
  have hpos := h.pos
  have hnew : v ∉ st.order ∧ v ∉ st.heap.items.map node :=
    not_or.mp fun hm => hpos ((h.ready v).mp hm)
  have hindeg : ∀ w, (Kahn.decrement key v st).indeg w =
      (edges.countP fun e => e.2 = w ∧ e.1 ∉ st.order) + vs.count w := by
    intro w
    have hw := h.indeg w
    by_cases hvw : w = v
    · subst hvw
      rw [List.count_cons_self] at hw
      simp only [Kahn.decrement, Function.update_self]
      omega
    · rw [List.count_cons_of_ne (Ne.symm hvw)] at hw
      simpa only [Kahn.decrement, Function.update_of_ne hvw] using hw
  by_cases hz : st.indeg v - 1 = 0
  · have hperm : ((Kahn.decrement key v st).heap.items.map node).Perm
        (v :: st.heap.items.map node) := by
      simpa [Kahn.decrement, hz, hkey] using (MinHeap.items_push st.heap (key v)).map node
    refine ⟨fun k hk => ?_, ?_, hindeg, fun w => ?_, h.respects⟩
    · simp only [Kahn.decrement, hz, if_true, MinHeap.mem_push] at hk
      rcases hk with rfl | hk
      · rw [hkey]
      · exact h.keys k hk
    · rw [show (Kahn.decrement key v st).order = st.order from rfl,
        (hperm.append_left st.order).nodup_iff, List.nodup_middle, List.nodup_cons,
        List.mem_append, not_or]
      exact ⟨hnew, h.nodup⟩
    · rw [show (Kahn.decrement key v st).order = st.order from rfl, hperm.mem_iff, List.mem_cons]
      by_cases hw : w = v
      · subst hw
        simp [Kahn.decrement, hz]
      · simp only [Kahn.decrement, Function.update_of_ne hw, ← h.ready w, hw, false_or]
  · have hheap : (Kahn.decrement key v st).heap = st.heap := if_neg hz
    refine ⟨by rw [hheap]; exact h.keys, by rw [hheap]; exact h.nodup, hindeg, fun w => ?_,
      h.respects⟩
    rw [hheap, show (Kahn.decrement key v st).order = st.order from rfl, h.ready w]
    by_cases hw : w = v
    · subst hw
      simp only [Kahn.decrement, Function.update_self]
      exact iff_of_false hpos hz
    · simp only [Kahn.decrement, Function.update_of_ne hw]

theorem Inv.release (hkey : ∀ v, node (key v) = v) : ∀ {todo : List V} {st : State V K},
    Inv edges key node todo st → Inv edges key node [] (release key todo st) ∧
      (Kahn.release key todo st).order = st.order
  | [], st, h => ⟨h, rfl⟩
  | v :: vs, st, h => by
    obtain ⟨hinv, horder⟩ := (h.decrement hkey).release hkey
    exact ⟨hinv, horder⟩

/-- Scheduling the node with the least key keeps the invariant. -/
theorem Inv.pop {st : State V K} {k : K} {heap : MinHeap K} (h : Inv edges key node [] st)
    (hp : st.heap.pop = some (k, heap)) :
    Inv edges key node (successors edges (node k))
      { st with heap := heap, order := st.order ++ [node k] } := by
  obtain ⟨hitems, -⟩ := MinHeap.pop_some hp
  have hnd := h.nodup
  rw [hitems, List.map_cons] at hnd
  have hk : node k ∉ st.order := fun hm =>
    (List.nodup_append.mp hnd).2.2 _ hm _ (List.mem_cons_self ..) rfl
  have hz : st.indeg (node k) = 0 :=
    (h.ready (node k)).mp (.inr (by rw [hitems]; exact List.mem_cons_self ..))
  refine ⟨fun x hx => h.keys x (by rw [hitems]; exact List.mem_cons_of_mem _ hx), ?_, fun v => ?_,
    fun v => ?_, h.respects.snoc fun u hu => ?_⟩
  · simpa using hnd
  · rw [count_successors, ← countP_split st.order hk, h.indeg v]; simp
  · rw [← h.ready v, hitems]
    simp only [List.mem_append, List.map_cons, List.mem_cons]
    tauto
  · by_contra hu'
    have hpos := countP_pos_of_edge hu hu'
    have := h.indeg (node k)
    rw [hz, List.count_nil] at this
    omega

/-- The node with the least key is scheduled first. -/
theorem Inv.pop_le {st : State V K} {k : K} {heap : MinHeap K} (h : Inv edges key node [] st)
    (hp : st.heap.pop = some (k, heap)) {w : V} (hw : Ready edges st.order w) :
    key (node k) ≤ key w := by
  obtain ⟨hitems, hmin⟩ := MinHeap.pop_some hp
  have hz : st.indeg w = 0 := by
    rw [h.indeg w, List.count_nil, Nat.add_zero, List.countP_eq_zero]
    rintro ⟨u, v⟩ he hcond
    simp only [decide_eq_true_eq] at hcond
    obtain ⟨rfl, hu⟩ := hcond
    exact hu (hw.2 u he)
  obtain ⟨k', hk', rfl⟩ := List.mem_map.mp (((h.ready w).mpr hz).resolve_left hw.1)
  rw [h.keys k' hk', h.keys k (hitems ▸ List.mem_cons_self ..)]
  rw [hitems] at hk'
  rcases List.mem_cons.mp hk' with rfl | hk'
  · exact le_refl _
  · exact hmin k' hk'

/-- The loop schedules greedily. -/
theorem Inv.drain_greedy (hkey : ∀ v, node (key v) = v) : ∀ (fuel : ℕ) {st : State V K},
    Inv edges key node [] st → Greedy key edges st.order →
      Greedy key edges (Kahn.drain key node (successors edges) fuel st).order
  | 0, _, _, hg => hg
  | fuel + 1, st, h, hg => by
    unfold Kahn.drain
    split
    · exact hg
    · rename_i k heap hp
      obtain ⟨hinv, horder⟩ := (h.pop hp).release hkey
      apply hinv.drain_greedy hkey fuel
      rw [horder]
      exact hg.snoc fun w hw => h.pop_le hp hw

/-- No subtraction of the inner loop fails. -/
theorem Inv.tryRelease (hkey : ∀ v, node (key v) = v) : ∀ {todo : List V} {st : State V K},
    Inv edges key node todo st → Kahn.tryRelease key todo st = some (Kahn.release key todo st)
  | [], _, _ => rfl
  | v :: vs, st, h => by
    rw [Kahn.tryRelease, if_neg h.pos]
    exact (h.decrement hkey).tryRelease hkey

/-- **No in-degree is decremented below zero.** -/
theorem Inv.tryDrain (hkey : ∀ v, node (key v) = v) : ∀ (fuel : ℕ) {st : State V K},
    Inv edges key node [] st → Kahn.tryDrain key node (successors edges) fuel st =
      some (Kahn.drain key node (successors edges) fuel st)
  | 0, _, _ => rfl
  | fuel + 1, st, h => by
    unfold Kahn.tryDrain Kahn.drain
    cases hp : st.heap.pop with
    | none => rfl
    | some p =>
      have hpop := h.pop hp
      simp only [hpop.tryRelease hkey, Option.bind_some]
      exact (hpop.release hkey).1.tryDrain hkey fuel

/-- **The main loop keeps the invariant, and with fuel for every node it empties the queue.** -/
theorem Inv.drain [Fintype V] (hkey : ∀ v, node (key v) = v) : ∀ (fuel : ℕ) {st : State V K},
    Inv edges key node [] st → Fintype.card V ≤ st.order.length + fuel →
      Inv edges key node [] (drain key node (successors edges) fuel st) ∧
        (Kahn.drain key node (successors edges) fuel st).heap.items = []
  | 0, st, h, hf => by
    refine ⟨h, ?_⟩
    have hcard := h.nodup.length_le_card
    rw [List.length_append, List.length_map] at hcard
    change st.heap.items = []
    exact List.eq_nil_of_length_eq_zero (by omega)
  | fuel + 1, st, h, hf => by
    unfold Kahn.drain
    split
    · rename_i hp
      exact ⟨h, MinHeap.pop_none hp⟩
    · rename_i k heap hp
      obtain ⟨hinv, horder⟩ := (h.pop hp).release hkey
      apply hinv.drain hkey fuel
      rw [horder, List.length_append, List.length_singleton]
      omega

/-! ## The whole run -/

/-- The state before the main loop. -/
def start (key : V → K) (edges : List (V × V)) (nodes : List V) : State V K :=
  ⟨indegrees edges, sources key (indegrees edges) nodes .empty, []⟩

omit [DecidableEq V] in
theorem items_sources (indeg : V → ℕ) : ∀ (vs : List V) (heap : MinHeap K),
    (sources key indeg vs heap).items.Perm
      (((vs.filter fun v => indeg v = 0).map key).reverse ++ heap.items)
  | [], heap => .refl _
  | v :: vs, heap => by
    unfold sources
    apply (items_sources indeg vs _).trans
    by_cases hv : indeg v = 0
    · rw [if_pos hv, List.filter_cons_of_pos (by simpa using hv), List.map_cons,
        List.reverse_cons, List.append_assoc]
      exact (MinHeap.items_push heap (key v)).append_left _
    · rw [if_neg hv, List.filter_cons_of_neg (by simpa using hv)]

theorem Inv.start (hkey : ∀ v, node (key v) = v) {nodes : List V} (hnd : nodes.Nodup)
    (hall : ∀ v, v ∈ nodes) : Inv edges key node [] (start key edges nodes) := by
  have hperm : ((Kahn.start key edges nodes).heap.items.map node).Perm
      (nodes.filter fun v => indegrees edges v = 0) := by
    apply ((items_sources (indegrees edges) nodes .empty).map node).trans
    rw [MinHeap.items_empty, List.append_nil, List.map_reverse, List.map_map]
    apply (List.reverse_perm _).trans
    rw [show node ∘ key = id from funext hkey, List.map_id]
  refine ⟨fun k hk => ?_, ?_, fun v => ?_, fun v => ?_, Respects.nil edges⟩
  · rw [Kahn.start, (items_sources (indegrees edges) nodes .empty).mem_iff] at hk
    simp only [MinHeap.items_empty, List.append_nil, List.mem_reverse, List.mem_map] at hk
    obtain ⟨v, -, rfl⟩ := hk
    rw [hkey]
  · rw [Kahn.start, List.nil_append]
    exact hperm.nodup_iff.mpr (hnd.filter _)
  · simp [Kahn.start, indegrees_eq]
  · rw [hperm.mem_iff]
    simp [Kahn.start, hall]

section Result

variable [Fintype V] (hkey : ∀ v, node (key v) = v) {nodes : List V} (hnd : nodes.Nodup)
  (hall : ∀ v, v ∈ nodes)
include hkey hnd hall

/-- The order in which the run schedules the nodes. -/
theorem order_spec {st : State V K}
    (hst : st = drain key node (successors edges) (Fintype.card V) (start key edges nodes)) :
    st.order.Nodup ∧ Respects edges st.order ∧
      ∀ v, v ∉ st.order → ∃ u, u ∉ st.order ∧ Edge edges u v := by
  have hstart : Inv edges key node [] (start key edges nodes) := Inv.start hkey hnd hall
  obtain ⟨hinv, hempty⟩ := hstart.drain hkey (Fintype.card V) (by omega)
  rw [← hst] at hinv hempty
  refine ⟨(List.nodup_append.mp hinv.nodup).1, hinv.respects, fun v hv => ?_⟩
  -- an unscheduled node keeps an unscheduled predecessor
  have hz : st.indeg v ≠ 0 := by
    intro h
    have := (hinv.ready v).mpr h
    simp [hempty, hv] at this
  rw [hinv.indeg v, List.count_nil, Nat.add_zero] at hz
  obtain ⟨⟨u, w⟩, he, hu⟩ := List.countP_pos_iff.mp (Nat.pos_of_ne_zero hz)
  simp only [decide_eq_true_eq] at hu
  obtain ⟨rfl, hu⟩ := hu
  exact ⟨u, hu, he⟩

/-- **The nodes left out are those on or behind a cycle.** -/
theorem not_mem_order_iff {st : State V K}
    (hst : st = drain key node (successors edges) (Fintype.card V) (start key edges nodes))
    {v : V} : v ∉ st.order ↔ Blocked edges v := by
  obtain ⟨-, hresp, hpred⟩ := order_spec hkey hnd hall hst
  constructor
  · exact fun hv => blocked_of_closed (S := {v | v ∉ st.order}) hpred v hv
  · exact fun hb hv => hresp.not_blocked hv hb

/-- On an acyclic edge list the run schedules every node. -/
theorem mem_order {st : State V K}
    (hst : st = drain key node (successors edges) (Fintype.card V) (start key edges nodes))
    (hA : Acyclic edges) (v : V) : v ∈ st.order := by
  by_contra hv
  exact acyclic_iff_not_blocked.mp hA v ((not_mem_order_iff hkey hnd hall hst).mp hv)

/-- The run schedules the least key first. -/
theorem order_greedy {st : State V K}
    (hst : st = drain key node (successors edges) (Fintype.card V) (start key edges nodes)) :
    Greedy key edges st.order := by
  have hstart : Inv edges key node [] (start key edges nodes) := Inv.start hkey hnd hall
  rw [hst]
  exact hstart.drain_greedy hkey (Fintype.card V) (.nil key edges)

end Result

end Lichtung.Kahn
