import Lichtung.Replay.Extension

/-!
# Replay engine assembly

Model of `replay_log` and `concurrent_pairs` (`crates/lichtung-replay/src/engine.rs`): poset,
validation, linear extension, viz artifacts.

Principal results: `replayLog_ok_iff` (which logs are accepted, in terms of the set of events
only), `replayLog_causal` (an accepted log is a consistent causal record and its timeline is a
linear extension of it), `concurrent_eq` (the listed pairs are the unordered ones) and
`concurrent_exact` (every unordered pair is listed once).
-/

namespace Lichtung

open EdgeGraph

structure PosetJson where
  events : List String
  edges : List (String × String)
  concurrent : List (String × String)
  deriving DecidableEq

/-- A replayed log: the canonical timeline plus its poset. -/
structure Replayed where
  timeline : List CausalEvent
  posetJson : PosetJson
  deriving DecidableEq

/-- `reach[s]`: the nodes marked by the search from `s`. -/
def Poset.reach (p : Poset) (s : Fin p.events.length) : Finset (Fin p.events.length) :=
  explore (successors p.edges) (p.events.length + 1) (∅, [s])

/-- `concurrent_pairs`: all `a < b` neither of which reaches the other. -/
def concurrentPairs (p : Poset) : List (String × String) :=
  (List.finRange p.events.length).flatMap fun a =>
    ((List.finRange p.events.length).filter fun b =>
      a < b ∧ b ∉ p.reach a ∧ a ∉ p.reach b).map fun b =>
        ((eventAt p.events a).id, (eventAt p.events b).id)

/-- `replay_log`. -/
def replayLog (events : List CausalEvent) : Except ReplayError Replayed := do
  let poset ← Poset.build events
  poset.validate
  let order ← poset.linearize
  return {
    timeline := order.map (eventAt poset.events)
    posetJson := {
      events := order.map fun i => (eventAt poset.events i).id
      edges := poset.edges.map fun e =>
        ((eventAt poset.events e.1).id, (eventAt poset.events e.2).id)
      concurrent := concurrentPairs poset } }

/-! ## Causal order on a log -/

/-- An emit and a recv that carry the same msg_id. -/
def MessageOrder (a b : CausalEvent) : Prop :=
  a.op = .emit ∧ b.op = .recv ∧ ∃ m, a.msgId = some m ∧ b.msgId = some m

/-- Causal predecessor: the transitive closure of program order and message order on the events
of a log. -/
def CausallyBefore (log : List CausalEvent) : CausalEvent → CausalEvent → Prop :=
  Relation.TransGen fun a b => a ∈ log ∧ b ∈ log ∧ (ProgramOrder a b ∨ MessageOrder a b)

/-- The logs `replay_log` accepts. -/
structure Accepted (log : List CausalEvent) : Prop where
  wellFormed : WellFormed log
  clocks : ∀ a ∈ log, ∀ b ∈ log, ProgramOrder a b ∨ Paired a b →
    a.vclock.components < b.vclock.components

theorem MessageOrder.paired {a b : CausalEvent} (h : MessageOrder a b) : Paired a b := by
  obtain ⟨ha, hb, m, hma, hmb⟩ := h
  exact ⟨m, CausalEvent.sent_eq_some.mpr ⟨ha, hma⟩,
    CausalEvent.wanted_eq_some.mpr ⟨hb, by rw [hmb]; rfl⟩⟩

theorem Accepted.perm {log log' : List CausalEvent} (h : Accepted log) (hp : log.Perm log') :
    Accepted log' where
  wellFormed := h.wellFormed.perm hp
  clocks := fun a ha b hb => h.clocks a (hp.mem_iff.mpr ha) b (hp.mem_iff.mpr hb)

/-- Clocks checked on the edges are ordered along every path. -/
theorem clocks_of_path {log : List CausalEvent} {es : List (Fin log.length × Fin log.length)}
    (hv : ∀ i j, Edge es i j → hbStrict (eventAt log i).vclock (eventAt log j).vclock = true)
    {i j : Fin log.length} (hp : Path es i j) :
    (eventAt log i).vclock.components < (eventAt log j).vclock.components := by
  induction hp with
  | single he => exact (hbStrict_iff _ _).mp (hv _ _ he)
  | tail _ he ih => exact ih.trans ((hbStrict_iff _ _).mp (hv _ _ he))

section Validated

variable {log : List CausalEvent} {es : List (Fin log.length × Fin log.length)}
  (hes : Poset.buildEdges log = .ok es)
include hes

theorem accepted_iff_validate :
    (∀ i j, Edge es i j → hbStrict (eventAt log i).vclock (eventAt log j).vclock = true) ↔
      Accepted log := by
  constructor
  · refine fun hv => ⟨(Poset.buildEdges_ok.mp hes).1, fun a ha b hb hab => ?_⟩
    obtain ⟨i, rfl⟩ := exists_eventAt ha
    obtain ⟨j, rfl⟩ := exists_eventAt hb
    exact clocks_of_path hv ((Poset.path_iff hes).mpr (.single hab))
  · intro h i j he
    rw [hbStrict_iff]
    exact h.clocks _ (eventAt_mem log i) _ (eventAt_mem log j) (Poset.edge_cases hes he)

theorem acyclic_of_accepted (h : Accepted log) : Acyclic es :=
  acyclic_of_lt (fun i => (eventAt log i).vclock.components) fun i j he =>
    h.clocks _ (eventAt_mem log i) _ (eventAt_mem log j) (Poset.edge_cases hes he)

end Validated

/-- What an accepted log replays to. -/
def replayedOf (p : Poset) : Replayed where
  timeline := p.schedule.map (eventAt p.events)
  posetJson := {
    events := p.schedule.map fun i => (eventAt p.events i).id
    edges := p.edges.map fun e => ((eventAt p.events e.1).id, (eventAt p.events e.2).id)
    concurrent := concurrentPairs p }

theorem replayLog_ok {log : List CausalEvent} {r : Replayed} : replayLog log = .ok r ↔
    ∃ es, Poset.buildEdges log = .ok es ∧ Accepted log ∧ r = replayedOf ⟨log, es⟩ := by
  simp only [replayLog, Poset.build, Except.bind_eq_ok]
  constructor
  · rintro ⟨p, ⟨es, hes, hp⟩, ⟨⟩, hv, order, hord, hr⟩
    cases hp
    have hacc := (accepted_iff_validate hes).mp (Poset.validateEdges_ok.mp hv)
    obtain ⟨hlin, -, -⟩ := Poset.linearize_of_acyclic ⟨log, es⟩ (acyclic_of_accepted hes hacc)
    cases hord.symm.trans hlin
    cases hr
    exact ⟨es, hes, hacc, rfl⟩
  · rintro ⟨es, hes, hacc, rfl⟩
    obtain ⟨hlin, -, -⟩ := Poset.linearize_of_acyclic ⟨log, es⟩ (acyclic_of_accepted hes hacc)
    exact ⟨⟨log, es⟩, ⟨es, hes, rfl⟩, (), Poset.validateEdges_ok.mpr
      ((accepted_iff_validate hes).mpr hacc), _, hlin, rfl⟩

/-- **`replay_log` accepts exactly the well-formed logs whose clocks grow along program order and
message pairs.** -/
theorem replayLog_ok_iff {log : List CausalEvent} :
    (∃ r, replayLog log = .ok r) ↔ Accepted log := by
  constructor
  · rintro ⟨r, hr⟩
    obtain ⟨_, _, hacc, _⟩ := replayLog_ok.mp hr
    exact hacc
  · intro h
    exact ⟨_, replayLog_ok.mpr ⟨_, Poset.buildEdges_ok.mpr ⟨h.wellFormed, rfl⟩, h, rfl⟩⟩

theorem eventAt_injective {log : List CausalEvent} (h : WellFormed log) :
    Function.Injective (eventAt log) := fun _ _ hij =>
  Poset.coords_get_inj h.coords (congrArg _ hij) (congrArg _ hij)

/-- An injective map keeps first positions. -/
theorem idxOf_map {β γ : Type} [DecidableEq β] [DecidableEq γ] {f : β → γ}
    (hf : Function.Injective f) (x : β) : ∀ l : List β, (l.map f).idxOf (f x) = l.idxOf x
  | [] => rfl
  | y :: l => by
    by_cases h : y = x
    · subst h; simp
    · rw [List.map_cons, List.idxOf_cons_ne _ (fun he => h (hf he)), List.idxOf_cons_ne _ h,
        idxOf_map hf x l]

/-- The causal order of an accepted log is reachability along the reconstructed edges. -/
theorem path_iff_causal {log : List CausalEvent} {es : List (Fin log.length × Fin log.length)}
    (hes : Poset.buildEdges log = .ok es) {i j : Fin log.length} : Path es i j ↔
      Relation.TransGen (fun a b => a ∈ log ∧ b ∈ log ∧ (ProgramOrder a b ∨ Paired a b))
        (eventAt log i) (eventAt log j) := by
  rw [Poset.path_iff hes]
  constructor
  · intro h
    induction h with
    | single h => exact .single ⟨eventAt_mem log _, eventAt_mem log _, h⟩
    | tail _ h ih => exact ih.tail ⟨eventAt_mem log _, eventAt_mem log _, h⟩
  · intro h
    have hinj := eventAt_injective (Poset.buildEdges_ok.mp hes).1
    have hend : ∀ b, Relation.TransGen
        (fun a b => a ∈ log ∧ b ∈ log ∧ (ProgramOrder a b ∨ Paired a b)) (eventAt log i) b →
        ∃ k, eventAt log k = b ∧ Relation.TransGen (fun i j =>
          ProgramOrder (eventAt log i) (eventAt log j) ∨
            Paired (eventAt log i) (eventAt log j)) i k := by
      intro b hb
      induction hb with
      | single hab =>
        obtain ⟨k, rfl⟩ := exists_eventAt hab.2.1
        exact ⟨k, rfl, .single hab.2.2⟩
      | tail _ hbc ih =>
        obtain ⟨k, rfl, hk⟩ := ih
        obtain ⟨l, rfl⟩ := exists_eventAt hbc.2.1
        exact ⟨l, rfl, hk.tail hbc.2.2⟩
    obtain ⟨k, hk, hik⟩ := hend _ h
    rwa [← hinj hk]

/-- The timeline of an accepted log lists its events once each, causes first. -/
theorem timeline_spec {log : List CausalEvent} {r : Replayed} (hr : replayLog log = .ok r) :
    r.timeline.Perm log ∧ ∀ a ∈ log, ∀ b ∈ log, ProgramOrder a b ∨ Paired a b →
      r.timeline.idxOf a < r.timeline.idxOf b := by
  obtain ⟨es, hes, hacc, rfl⟩ := replayLog_ok.mp hr
  obtain ⟨-, hperm, hresp⟩ :=
    Poset.linearize_of_acyclic ⟨log, es⟩ (acyclic_of_accepted hes hacc)
  refine ⟨?_, fun a ha b hb hab => ?_⟩
  · have := hperm.map (eventAt log)
    rwa [map_eventAt] at this
  · obtain ⟨i, rfl⟩ := exists_eventAt ha
    obtain ⟨j, rfl⟩ := exists_eventAt hb
    have hinj := eventAt_injective hacc.wellFormed
    have hlt := (hresp.lt_of_path ((Poset.path_iff hes).mpr (.single hab))
      (hperm.mem_iff.mpr (List.mem_finRange j))).2
    simpa only [replayedOf, idxOf_map hinj] using hlt

/-! ## Orders of a log -/

/-- The recorded events in an order without a cause after its effect. -/
structure Extends (log timeline : List CausalEvent) : Prop where
  perm : timeline.Perm log
  causes : timeline.Pairwise fun e f => ¬ (ProgramOrder f e ∨ Paired f e)

namespace Extends

variable {log timeline done todo : List CausalEvent} {e f ev : CausalEvent}

theorem mem_of_done (h : Extends log (done ++ todo)) (he : e ∈ done) : e ∈ log :=
  h.perm.mem_iff.mp (List.mem_append_left _ he)

theorem nodup (h : Extends log timeline) (hwf : WellFormed log) : timeline.Nodup :=
  h.perm.nodup_iff.mpr hwf.nodup

/-- The event at hand was not walked yet. -/
theorem not_mem_done (h : Extends log (done ++ ev :: todo)) (hwf : WellFormed log) : ev ∉ done :=
  fun hdone => (List.nodup_append'.mp (h.nodup hwf)).2.2 hdone (List.mem_cons_self ..)

/-- The seqs of each actor go up. -/
theorem seqs_lt (h : Extends log timeline) (hwf : WellFormed log) :
    timeline.Pairwise fun e f => e.actor = f.actor → e.seq < f.seq := by
  refine (h.causes.and (h.nodup hwf)).imp_of_mem fun {e f} he hf hef hactor => ?_
  have hne : e.seq ≠ f.seq := fun heq => hef.2
    (hwf.eq_of_coords (h.perm.mem_iff.mp he) (h.perm.mem_iff.mp hf) hactor heq)
  have hnot : ¬ f.seq < e.seq := fun hlt => hef.1 (.inl ⟨hactor.symm, hlt⟩)
  omega

/-- What was walked is closed under causes. -/
theorem closed (h : Extends log (done ++ todo)) (he : e ∈ done) (hf : f ∈ log)
    (hfe : ProgramOrder f e ∨ Paired f e) : f ∈ done := by
  rcases List.mem_append.mp (h.perm.mem_iff.mpr hf) with hdone | htodo
  · exact hdone
  · exact absurd hfe ((List.pairwise_append.mp h.causes).2.2 e he f htodo)

/-- The causes of the event at hand were walked. -/
theorem cause (h : Extends log (done ++ ev :: todo)) (hf : f ∈ log)
    (hfe : ProgramOrder f ev ∨ Paired f ev) : f ∈ done := by
  rw [← List.singleton_append, ← List.append_assoc] at h
  rcases List.mem_append.mp (h.closed (by simp) hf hfe) with hdone | hlast
  · exact hdone
  · rw [List.mem_singleton.mp hlast] at hfe
    rcases hfe with ⟨-, hlt⟩ | ⟨s, hs, hw⟩
    · exact absurd hlt (Nat.lt_irrefl _)
    · have hemit := (CausalEvent.sent_eq_some.mp hs).1
      rw [(CausalEvent.wanted_eq_some.mp hw).1] at hemit
      cases hemit

end Extends

/-- A list of the nodes that respects the reconstructed edges. -/
theorem extends_of_respects {log : List CausalEvent}
    {es : List (Fin log.length × Fin log.length)} (hes : Poset.buildEdges log = .ok es)
    {order : List (Fin log.length)} (hperm : order.Perm (List.finRange log.length))
    (hresp : Respects es order) : Extends log (order.map (eventAt log)) where
  perm := by
    have := hperm.map (eventAt log)
    rwa [map_eventAt] at this
  causes := by
    have hnd : order.Nodup := hperm.nodup_iff.mpr (List.nodup_finRange _)
    refine List.pairwise_map.mpr (List.pairwise_iff_getElem.mpr fun i j hi hj hij hc => ?_)
    have hpath : Path es order[j] order[i] := (Poset.path_iff hes).mpr (.single hc)
    have hlt := (hresp.lt_of_path hpath (List.getElem_mem hi)).2
    rw [hnd.idxOf_getElem, hnd.idxOf_getElem] at hlt
    omega

/-- The timeline is one of these orders. -/
theorem timeline_extends {log : List CausalEvent} {r : Replayed} (hr : replayLog log = .ok r) :
    Extends log r.timeline := by
  obtain ⟨es, hes, hacc, rfl⟩ := replayLog_ok.mp hr
  obtain ⟨-, hperm, hresp⟩ :=
    Poset.linearize_of_acyclic ⟨log, es⟩ (acyclic_of_accepted hes hacc)
  exact extends_of_respects hes hperm hresp

/-- **An accepted log is a consistent causal record and its timeline a linear extension of it;
linearization never reports a cycle.** -/
theorem replayLog_causal :
    (∀ log r, replayLog log = .ok r → r.timeline.Perm log ∧ ∀ a b, CausallyBefore log a b →
      a.vclock.components < b.vclock.components ∧ r.timeline.idxOf a < r.timeline.idxOf b) ∧
    ∀ log k, replayLog log ≠ .error (.cycle k) := by
  refine ⟨fun log r hr => ?_, fun log k hk => ?_⟩
  · obtain ⟨hperm, hbefore⟩ := timeline_spec hr
    obtain ⟨es, hes, hacc, -⟩ := replayLog_ok.mp hr
    refine ⟨hperm, fun a b hab => ?_⟩
    have hstep : ∀ a b, a ∈ log ∧ b ∈ log ∧ (ProgramOrder a b ∨ MessageOrder a b) →
        a.vclock.components < b.vclock.components ∧
          r.timeline.idxOf a < r.timeline.idxOf b := by
      rintro a b ⟨ha, hb, h⟩
      have h' : ProgramOrder a b ∨ Paired a b := h.imp_right MessageOrder.paired
      exact ⟨hacc.clocks a ha b hb h', hbefore a ha b hb h'⟩
    induction hab with
    | single h => exact hstep _ _ h
    | tail _ h ih => exact ⟨ih.1.trans (hstep _ _ h).1, ih.2.trans (hstep _ _ h).2⟩
  · -- a log that passes `validate` is acyclic, so `linearize` returns
    cases hb : Poset.build log with
    | error e =>
      rw [replayLog, hb] at hk
      cases hk
      exact Poset.build_neverCycle k hb
    | ok p =>
      obtain ⟨es, hes, hp⟩ := Except.bind_eq_ok.mp hb
      cases hp
      cases hv : Poset.validate ⟨log, es⟩ with
      | error e =>
        simp only [replayLog, hb, bind, Except.bind, hv] at hk
        cases hk
        exact Poset.validateEdges_neverCycle _ _ k hv
      | ok u =>
        have hacc := (accepted_iff_validate hes).mp (Poset.validateEdges_ok.mp hv)
        obtain ⟨r, hr⟩ := replayLog_ok_iff.mpr hacc
        rw [hr] at hk
        cases hk

/-- An origin and its receipt. -/
def originLog : List CausalEvent :=
  [{ id := "world:1", actor := "world", seq := 1, op := .emit, vclock := .ofList [("world", 1)],
     lamport := 1, msgId := some "m1", src := some "world", dst := some "source",
     value := none, payloadHash := none },
   { id := "source:1", actor := "source", seq := 1, op := .recv,
     vclock := .ofList [("source", 1), ("world", 1)], lamport := 2, msgId := some "m1",
     src := some "world", dst := some "source", value := none, payloadHash := none }]

theorem replayLog_causal_origin : ∃ r, replayLog originLog = .ok r ∧ r.timeline.Perm originLog ∧
    originLog[0].vclock.components < originLog[1].vclock.components ∧
    r.timeline.idxOf originLog[0] < r.timeline.idxOf originLog[1] := by
  have hok : (replayLog originLog).toOption.isSome = true := by decide
  cases hr : replayLog originLog with
  | error e => rw [hr] at hok; cases hok
  | ok r =>
    obtain ⟨hperm, hcausal⟩ := replayLog_causal.1 originLog r hr
    have hmsg : MessageOrder originLog[0] originLog[1] := ⟨rfl, rfl, "m1", rfl, rfl⟩
    exact ⟨r, rfl, hperm, hcausal _ _ (.single ⟨by decide, by decide, .inr hmsg⟩)⟩

/-! ## The concurrent pairs -/

/-- The ids of the events related by `R`, the earlier line of the log first. -/
def pairsWhere (log : List CausalEvent) (R : CausalEvent → CausalEvent → Prop) [DecidableRel R] :
    List (String × String) :=
  (List.finRange log.length).flatMap fun i =>
    ((List.finRange log.length).filter fun j => i < j ∧ R (eventAt log i) (eventAt log j)).map
      fun j => ((eventAt log i).id, (eventAt log j).id)

theorem Poset.mem_reach {log : List CausalEvent} {es : List (Fin log.length × Fin log.length)}
    {i j : Fin log.length} : j ∈ Poset.reach ⟨log, es⟩ i ↔ Path es i j := by
  rw [← mem_explore, Fintype.card_fin]; rfl

/-- **The listed pairs are the pairs unordered by causality**, for every relation that says so. -/
theorem concurrent_eq {log : List CausalEvent} {r : Replayed} (hr : replayLog log = .ok r)
    (R : CausalEvent → CausalEvent → Prop) [DecidableRel R]
    (hR : ∀ i j : Fin log.length, i < j → (R (eventAt log i) (eventAt log j) ↔
      ¬ Relation.TransGen (fun a b => a ∈ log ∧ b ∈ log ∧ (ProgramOrder a b ∨ Paired a b))
          (eventAt log i) (eventAt log j) ∧
      ¬ Relation.TransGen (fun a b => a ∈ log ∧ b ∈ log ∧ (ProgramOrder a b ∨ Paired a b))
          (eventAt log j) (eventAt log i))) :
    r.posetJson.concurrent = pairsWhere log R := by
  obtain ⟨es, hes, -, rfl⟩ := replayLog_ok.mp hr
  simp only [replayedOf, concurrentPairs, pairsWhere]
  congr 1
  funext i
  congr 1
  refine List.filter_congr fun j _ => decide_eq_decide.mpr (and_congr_right fun hij => ?_)
  rw [hR i j hij, Poset.mem_reach, Poset.mem_reach, path_iff_causal hes, path_iff_causal hes]

/-- The pairs of nodes whose ids `concurrent_pairs` lists. -/
def Poset.unordered (p : Poset) : List (Fin p.events.length × Fin p.events.length) :=
  (List.finRange p.events.length).flatMap fun a =>
    ((List.finRange p.events.length).filter fun b =>
      a < b ∧ b ∉ p.reach a ∧ a ∉ p.reach b).map fun b => (a, b)

theorem concurrentPairs_eq (p : Poset) : concurrentPairs p =
    p.unordered.map fun q => ((eventAt p.events q.1).id, (eventAt p.events q.2).id) := by
  simp only [concurrentPairs, Poset.unordered, List.map_flatMap, List.map_map]
  rfl

section Unordered

variable {log : List CausalEvent} {es : List (Fin log.length × Fin log.length)}

theorem mem_unordered {i j : Fin log.length} : (i, j) ∈ Poset.unordered ⟨log, es⟩ ↔
    i < j ∧ ¬ Path es i j ∧ ¬ Path es j i := by
  rw [← Poset.mem_reach, ← Poset.mem_reach]
  simp only [Poset.unordered, List.mem_flatMap, List.mem_map, List.mem_filter, List.mem_finRange,
    true_and, Prod.mk.injEq, decide_eq_true_eq]
  constructor
  · rintro ⟨a, b, h, rfl, rfl⟩; exact h
  · exact fun h => ⟨i, j, h, rfl, rfl⟩

theorem unordered_nodup : (Poset.unordered ⟨log, es⟩).Nodup := by
  refine List.nodup_flatMap.mpr ⟨fun a _ => ?_, ?_⟩
  · exact ((List.nodup_finRange _).filter _).map fun b c h => (Prod.mk.inj h).2
  · refine (List.nodup_finRange _).imp fun {a b} hab => ?_
    rintro ⟨x, y⟩ hx hy
    obtain ⟨_, _, hx⟩ := List.mem_map.mp hx
    obtain ⟨_, _, hy⟩ := List.mem_map.mp hy
    exact hab ((Prod.mk.inj hx).1.trans (Prod.mk.inj hy).1.symm)

/-- The number of times the pair is listed, in either orientation. -/
def listings (pairs : List (Fin log.length × Fin log.length)) (i j : Fin log.length) : Nat :=
  pairs.count (i, j) + pairs.count (j, i)

theorem listings_of_path {i j : Fin log.length} (h : Path es i j ∨ Path es j i) :
    listings (Poset.unordered ⟨log, es⟩) i j = 0 := by
  have h1 : (i, j) ∉ Poset.unordered ⟨log, es⟩ := fun hmem =>
    h.elim (mem_unordered.mp hmem).2.1 (mem_unordered.mp hmem).2.2
  have h2 : (j, i) ∉ Poset.unordered ⟨log, es⟩ := fun hmem =>
    h.elim (mem_unordered.mp hmem).2.2 (mem_unordered.mp hmem).2.1
  rw [listings, List.count_eq_zero_of_not_mem h1, List.count_eq_zero_of_not_mem h2]

theorem listings_of_unordered {i j : Fin log.length} (hne : i ≠ j) (hij : ¬ Path es i j)
    (hji : ¬ Path es j i) : listings (Poset.unordered ⟨log, es⟩) i j = 1 := by
  have hnot : ∀ {a b : Fin log.length}, b < a → (a, b) ∉ Poset.unordered ⟨log, es⟩ :=
    fun hlt hmem => (mem_unordered.mp hmem).1.not_gt hlt
  rcases lt_or_gt_of_ne hne with hlt | hlt
  · rw [listings, List.count_eq_one_of_mem unordered_nodup (mem_unordered.mpr ⟨hlt, hij, hji⟩),
      List.count_eq_zero_of_not_mem (hnot hlt)]
  · rw [listings, List.count_eq_one_of_mem unordered_nodup (mem_unordered.mpr ⟨hlt, hji, hij⟩),
      List.count_eq_zero_of_not_mem (hnot hlt)]

/-- As many pairs are listed as there are two-element antichains. -/
theorem length_unordered (hA : Acyclic es) : (Poset.unordered ⟨log, es⟩).length =
    {S : Finset (Fin log.length) | S.card = 2 ∧ ∀ a ∈ S, ∀ b ∈ S, ¬ Path es a b}.ncard := by
  have himage : {S : Finset (Fin log.length) | S.card = 2 ∧ ∀ a ∈ S, ∀ b ∈ S, ¬ Path es a b} =
      (fun q => {q.1, q.2}) '' {q | q ∈ Poset.unordered ⟨log, es⟩} := by
    ext S
    constructor
    · rintro ⟨hcard, hanti⟩
      obtain ⟨a, b, hne, rfl⟩ := Finset.card_eq_two.mp hcard
      have hab := hanti a (by simp) b (by simp)
      have hba := hanti b (by simp) a (by simp)
      rcases lt_or_gt_of_ne hne with hlt | hlt
      · exact ⟨(a, b), mem_unordered.mpr ⟨hlt, hab, hba⟩, rfl⟩
      · exact ⟨(b, a), mem_unordered.mpr ⟨hlt, hba, hab⟩, Finset.pair_comm b a⟩
    · rintro ⟨⟨a, b⟩, hq, rfl⟩
      obtain ⟨hlt, hab, hba⟩ := mem_unordered.mp hq
      refine ⟨Finset.card_pair hlt.ne, ?_⟩
      simp [hab, hba, hA a, hA b]
  have hinj : Set.InjOn (fun q => ({q.1, q.2} : Finset (Fin log.length)))
      {q | q ∈ Poset.unordered ⟨log, es⟩} := by
    rintro ⟨a, b⟩ hq ⟨c, d⟩ hq' heq
    have hab := (mem_unordered.mp hq).1
    have hcd := (mem_unordered.mp hq').1
    have heq : ({a, b} : Finset (Fin log.length)) = {c, d} := heq
    have ha : a ∈ ({c, d} : Finset (Fin log.length)) := by rw [← heq]; simp
    have hb : b ∈ ({c, d} : Finset (Fin log.length)) := by rw [← heq]; simp
    rw [Finset.mem_insert, Finset.mem_singleton] at ha hb
    rcases ha with rfl | rfl <;> rcases hb with rfl | rfl
    · exact absurd hab (lt_irrefl _)
    · rfl
    · exact absurd hab hcd.not_gt
    · exact absurd hab (lt_irrefl _)
  rw [himage, hinj.ncard_image, ← List.coe_toFinset, Set.ncard_coe_finset,
    List.toFinset_card_of_nodup unordered_nodup]

end Unordered

/-- **`concurrent` is the incomparability relation of the poset.**  Of two distinct events either
one reaches the other along the reconstructed edges, or the pair is listed, once and in one
orientation.  No event is paired with itself, the pairs are as many as the two-element antichains,
and events with incomparable vclocks are listed. -/
theorem concurrent_exact {log : List CausalEvent} {r : Replayed} (hr : replayLog log = .ok r) :
    ∃ es, ∃ pairs : List (Fin log.length × Fin log.length), Poset.buildEdges log = .ok es ∧
      r.posetJson.concurrent =
        pairs.map (fun q => ((eventAt log q.1).id, (eventAt log q.2).id)) ∧
      (∀ i j, i ≠ j → (Path es i j ∧ ¬ Path es j i ∧ listings pairs i j = 0) ∨
        (¬ Path es i j ∧ Path es j i ∧ listings pairs i j = 0) ∨
        (¬ Path es i j ∧ ¬ Path es j i ∧ listings pairs i j = 1)) ∧
      (∀ i, (i, i) ∉ pairs) ∧
      r.posetJson.concurrent.length =
        {S : Finset (Fin log.length) | S.card = 2 ∧ ∀ a ∈ S, ∀ b ∈ S, ¬ Path es a b}.ncard ∧
      ∀ i j, ¬ (eventAt log i).vclock.components ≤ (eventAt log j).vclock.components →
        ¬ (eventAt log j).vclock.components ≤ (eventAt log i).vclock.components →
          (i, j) ∈ pairs ∨ (j, i) ∈ pairs := by
  obtain ⟨es, hes, hacc, rfl⟩ := replayLog_ok.mp hr
  have hA := acyclic_of_accepted hes hacc
  have hclock : ∀ i j, Path es i j →
      (eventAt log i).vclock.components < (eventAt log j).vclock.components := fun i j =>
    clocks_of_path ((accepted_iff_validate hes).mpr hacc)
  refine ⟨es, Poset.unordered ⟨log, es⟩, hes, concurrentPairs_eq _, fun i j hne => ?_, fun i hi => ?_,
    ?_, fun i j hij hji => ?_⟩
  · by_cases h1 : Path es i j
    · exact .inl ⟨h1, fun h2 => hA i (h1.trans h2), listings_of_path (.inl h1)⟩
    · by_cases h2 : Path es j i
      · exact .inr (.inl ⟨h1, h2, listings_of_path (.inr h2)⟩)
      · exact .inr (.inr ⟨h1, h2, listings_of_unordered hne h1 h2⟩)
  · exact lt_irrefl _ (mem_unordered.mp hi).1
  · simp only [replayedOf, concurrentPairs_eq, List.length_map]
    exact length_unordered hA
  · have hne : i ≠ j := by rintro rfl; exact hij le_rfl
    have h1 : ¬ Path es i j := fun h => hij (hclock i j h).le
    have h2 : ¬ Path es j i := fun h => hji (hclock j i h).le
    rcases lt_or_gt_of_ne hne with hlt | hlt
    · exact .inl (mem_unordered.mpr ⟨hlt, h1, h2⟩)
    · exact .inr (mem_unordered.mpr ⟨hlt, h2, h1⟩)

theorem concurrent_exact_pair : ∃ r, replayLog Poset.looped.events = .ok r ∧
    r.posetJson.concurrent = [("a:1", "b:1")] ∧
    ∃ es, Poset.buildEdges Poset.looped.events = .ok es ∧ r.posetJson.concurrent.length =
      {S : Finset (Fin Poset.looped.events.length) |
        S.card = 2 ∧ ∀ a ∈ S, ∀ b ∈ S, ¬ Path es a b}.ncard := by
  have hok : (replayLog Poset.looped.events).toOption.map (·.posetJson.concurrent) =
      some [("a:1", "b:1")] := by decide
  cases hr : replayLog Poset.looped.events with
  | error e => rw [hr] at hok; cases hok
  | ok r =>
    obtain ⟨es, _, hes, _, _, _, hlen, _⟩ := concurrent_exact hr
    rw [hr] at hok
    exact ⟨r, rfl, Option.some.inj hok, es, hes, hlen⟩

end Lichtung
