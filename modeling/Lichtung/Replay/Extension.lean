import Lichtung.Lib.Kahn
import Lichtung.Replay.Poset

/-!
# Canonical linear extension

Model of `linearize` (`crates/lichtung-replay/src/extension.rs`): Kahn's algorithm draining ready
nodes smallest-first by `(lamport, actor, seq, idx)`.

Principal results: `linearize_of_acyclic` (on an acyclic poset `linearize` returns a permutation of
the nodes that respects every edge) and `linearize_exact` (the order returned is the least one, and
a cycle is reported with the number of nodes behind it).
-/

namespace Lichtung

open EdgeGraph

/-- The sort key `(lamport, actor, seq, idx)`. -/
abbrev SortKey (n : Nat) := Nat ×ₗ (String ×ₗ (Nat ×ₗ Fin n))

/-- The node a key belongs to. -/
def SortKey.index {n : Nat} (k : SortKey n) : Fin n := (ofLex (ofLex (ofLex k).2).2).2

namespace Poset

variable (p : Poset)

def key (i : Fin p.events.length) : SortKey p.events.length :=
  let e := eventAt p.events i
  toLex (e.lamport, toLex (e.actor, toLex (e.seq, i)))

@[simp] theorem index_key (i : Fin p.events.length) : (p.key i).index = i := rfl

/-- The order in which the loop of `linearize` schedules the nodes. -/
def schedule : List (Fin p.events.length) :=
  (Kahn.drain p.key SortKey.index (successors p.edges) p.events.length
    (Kahn.start p.key p.edges (List.finRange p.events.length))).order

/-- `schedule` with an `indeg[j] -= 1` that fails below zero. -/
def trySchedule : Option (List (Fin p.events.length)) :=
  (Kahn.tryDrain p.key SortKey.index (successors p.edges) p.events.length
    (Kahn.start p.key p.edges (List.finRange p.events.length))).map Kahn.State.order

/-- `linearize`. -/
def linearize : Except ReplayError (List (Fin p.events.length)) :=
  if p.schedule.length ≠ p.events.length then
    .error (.cycle (p.events.length - p.schedule.length))
  else .ok p.schedule

theorem schedule_eq : p.schedule =
    (Kahn.drain p.key SortKey.index (successors p.edges) (Fintype.card (Fin p.events.length))
      (Kahn.start p.key p.edges (List.finRange p.events.length))).order := by
  rw [Fintype.card_fin]; rfl

theorem schedule_spec : p.schedule.Nodup ∧ Respects p.edges p.schedule ∧
    ∀ v, v ∉ p.schedule → ∃ u, u ∉ p.schedule ∧ Edge p.edges u v := by
  rw [schedule_eq]
  exact Kahn.order_spec p.index_key (List.nodup_finRange _) (fun v => List.mem_finRange v) rfl

/-- **On an acyclic poset `linearize` returns all nodes, each after its predecessors.** -/
theorem linearize_of_acyclic (hA : Acyclic p.edges) :
    p.linearize = .ok p.schedule ∧ p.schedule.Perm (List.finRange p.events.length) ∧
      Respects p.edges p.schedule := by
  obtain ⟨hnd, hresp, -⟩ := p.schedule_spec
  have hall : ∀ v, v ∈ p.schedule := by
    rw [schedule_eq]
    exact Kahn.mem_order p.index_key (List.nodup_finRange _) (fun v => List.mem_finRange v) rfl hA
  have hperm : p.schedule.Perm (List.finRange p.events.length) :=
    (List.perm_ext_iff_of_nodup hnd (List.nodup_finRange _)).mpr fun v =>
      iff_of_true (hall v) (List.mem_finRange v)
  refine ⟨if_neg ?_, hperm, hresp⟩
  rw [not_not, hperm.length_eq, List.length_finRange]

theorem key_injective : Function.Injective p.key :=
  Function.LeftInverse.injective p.index_key

theorem schedule_greedy : Greedy p.key p.edges p.schedule := by
  rw [schedule_eq]
  exact Kahn.order_greedy p.index_key (List.nodup_finRange _) (fun v => List.mem_finRange v) rfl

theorem not_mem_schedule_iff {v : Fin p.events.length} :
    v ∉ p.schedule ↔ Blocked p.edges v := by
  rw [schedule_eq]
  exact Kahn.not_mem_order_iff p.index_key (List.nodup_finRange _) (fun v => List.mem_finRange v) rfl

/-- The nodes behind a cycle are the ones missing from the schedule. -/
theorem ncard_blocked :
    {v | Blocked p.edges v}.ncard = p.events.length - p.schedule.length := by
  have hset : {v | Blocked p.edges v} = (p.schedule.toFinset : Set (Fin p.events.length))ᶜ := by
    ext v
    simp [← not_mem_schedule_iff]
  rw [hset, Set.ncard_compl, Set.ncard_coe_finset, List.toFinset_card_of_nodup p.schedule_spec.1,
    Nat.card_fin]

theorem trySchedule_eq : p.trySchedule = some p.schedule := by
  have hstart : Kahn.Inv p.edges p.key SortKey.index []
      (Kahn.start p.key p.edges (List.finRange p.events.length)) :=
    .start p.index_key (List.nodup_finRange _) fun v => List.mem_finRange v
  rw [trySchedule, hstart.tryDrain p.index_key]
  rfl

/-- On a poset with a cycle `linearize` reports the nodes behind it. -/
theorem linearize_of_cyclic (hA : ¬ Acyclic p.edges) :
    p.linearize = .error (.cycle {v | Blocked p.edges v}.ncard) := by
  rw [acyclic_iff_not_blocked] at hA
  push Not at hA
  obtain ⟨v, hv⟩ := hA
  have hpos : 0 < {v | Blocked p.edges v}.ncard := (Set.ncard_pos (Set.toFinite _)).mpr ⟨v, hv⟩
  rw [ncard_blocked] at hpos ⊢
  exact if_pos (by omega)

/-- **`linearize` is the least topological sort and reports cycles exactly.**  It returns where the
edges are acyclic: a permutation of the nodes that respects every edge, with the lexicographically
least sequence of keys.  Else it reports the number of nodes on or behind a cycle.  No in-degree is
decremented below zero. -/
theorem linearize_exact :
    ((∃ order, p.linearize = .ok order) ↔ Acyclic p.edges) ∧
    (∀ order, p.linearize = .ok order → order.Perm (List.finRange p.events.length) ∧
      Respects p.edges order ∧
      IsLeast {ks | ∃ order' : List (Fin p.events.length),
        order'.Perm (List.finRange p.events.length) ∧ Respects p.edges order' ∧
          ks = order'.map p.key} (order.map p.key)) ∧
    (¬ Acyclic p.edges → p.linearize = .error (.cycle {v | Blocked p.edges v}.ncard)) ∧
    p.trySchedule = some p.schedule := by
  have hiff : (∃ order, p.linearize = .ok order) ↔ Acyclic p.edges := by
    refine ⟨fun ⟨order, h⟩ => ?_, fun hA => ⟨_, (p.linearize_of_acyclic hA).1⟩⟩
    by_contra hA
    rw [p.linearize_of_cyclic hA] at h
    cases h
  refine ⟨hiff, fun order h => ?_, p.linearize_of_cyclic, p.trySchedule_eq⟩
  obtain ⟨hlin, hperm, hresp⟩ := p.linearize_of_acyclic (hiff.mp ⟨order, h⟩)
  cases hlin.symm.trans h
  refine ⟨hperm, hresp, ?_⟩
  have hleast := p.schedule_greedy.isLeast p.key_injective hresp p.schedule_spec.1
  obtain ⟨-, hmin⟩ := hleast
  refine ⟨⟨_, hperm, hresp, rfl⟩, ?_⟩
  rintro ks ⟨order', hp, hr, rfl⟩
  exact hmin ⟨order', hp.trans hperm.symm, hr, rfl⟩

/-- Two events that precede each other. -/
def looped : Poset where
  events := [computeEvent "a" 1 .new 1, computeEvent "b" 1 .new 1]
  edges := [(0, 1), (1, 0)]

theorem linearize_exact_looped :
    looped.linearize = .error (.cycle {v | Blocked looped.edges v}.ncard) ∧
      looped.trySchedule = some looped.schedule := by
  obtain ⟨i, j, hij, hji⟩ : ∃ i j, Edge looped.edges i j ∧ Edge looped.edges j i :=
    ⟨⟨0, by decide⟩, ⟨1, by decide⟩, .head _, .tail _ (.head _)⟩
  obtain ⟨-, -, hcyclic, htry⟩ := looped.linearize_exact
  exact ⟨hcyclic fun hA => hA i (.tail (.single hij) hji), htry⟩

end Poset

end Lichtung
