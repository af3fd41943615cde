import Lichtung.Replay.Engine

/-!
# The canonical timeline

`linearize` breaks its ties by `(lamport, actor, seq, idx)`, and the reconstructed edges, the
in-degrees and the index `idx` change with the order of the log's lines.  An accepted log has unique
coordinates, so the index never decides, and what is left of the computation is a function of the
set of events.

Principal results: `schedule_rename` (the schedules of two orders of one log agree),
`replayLog_shuffle` (`replay_log` on two orders of one log) and `timeline_sorted` (where lamports
grow along the edges the timeline is the sorted log).
-/

namespace Lichtung

open EdgeGraph Poset

/-! ## Which error a log is refused with -/

/-- The stage that refuses a log: `build` checks coordinates, then emits, then recvs, and
`validate` the clocks. -/
inductive Refused (log : List CausalEvent) : ErrorKind → Prop where
  | coords (h : ¬ (log.map fun e => (e.actor, e.seq)).Nodup) : Refused log .duplicateSeq
  | emits (hc : (log.map fun e => (e.actor, e.seq)).Nodup)
      (h : ¬ (log.filterMap CausalEvent.sent).Nodup) : Refused log .duplicateEmit
  | recvs (hc : (log.map fun e => (e.actor, e.seq)).Nodup)
      (he : (log.filterMap CausalEvent.sent).Nodup) (h : ¬ WellFormed log) :
      Refused log .missingEmit
  | clocks (hwf : WellFormed log) (h : ¬ Accepted log) : Refused log .inconsistent

theorem Refused.unique {log : List CausalEvent} {k k' : ErrorKind} (h : Refused log k)
    (h' : Refused log k') : k = k' := by
  cases h with
  | coords h =>
    cases h' with
    | coords => rfl
    | emits hc => exact absurd hc h
    | recvs hc => exact absurd hc h
    | clocks hwf => exact absurd hwf.coords h
  | emits hc h =>
    cases h' with
    | coords h' => exact absurd hc h'
    | emits => rfl
    | recvs _ he => exact absurd he h
    | clocks hwf => exact absurd hwf.emits h
  | recvs hc he h =>
    cases h' with
    | coords h' => exact absurd hc h'
    | emits _ h' => exact absurd he h'
    | recvs => rfl
    | clocks hwf => exact absurd hwf h
  | clocks hwf h =>
    cases h' with
    | coords h' => exact absurd hwf.coords h'
    | emits _ h' => exact absurd hwf.emits h'
    | recvs _ _ h' => exact absurd hwf h'
    | clocks => rfl

theorem Refused.perm {log log' : List CausalEvent} {k : ErrorKind} (h : Refused log k)
    (hp : log.Perm log') : Refused log' k := by
  have hcoords := (hp.map fun e : CausalEvent => (e.actor, e.seq)).nodup_iff
  have hemits := (hp.filterMap CausalEvent.sent).nodup_iff
  cases h with
  | coords h => exact .coords fun h' => h (hcoords.mpr h')
  | emits hc h => exact .emits (hcoords.mp hc) fun h' => h (hemits.mpr h')
  | recvs hc he h => exact .recvs (hcoords.mp hc) (hemits.mp he) fun h' => h (h'.perm hp.symm)
  | clocks hwf h => exact .clocks (hwf.perm hp) fun h' => h (h'.perm hp.symm)

/-- An error of `build` is that of the first check the log does not pass. -/
theorem refused_of_buildEdges {log : List CausalEvent} {e : ReplayError}
    (h : buildEdges log = .error e) : Refused log e.kind := by
  have hnot : ¬ WellFormed log := by
    intro hwf
    rw [buildEdges_ok.mpr ⟨hwf, rfl⟩] at h
    cases h
  by_cases hc : (log.map fun e => (e.actor, e.seq)).Nodup
  · obtain ⟨program, hprogram⟩ : ∃ es, programEdges log (byActor log).toList = .ok es :=
      ⟨_, programEdges_ok.mpr ⟨chains_iff_coords.mpr hc, rfl⟩⟩
    simp only [buildEdges, hprogram, bind, Except.bind] at h
    by_cases he : (log.filterMap CausalEvent.sent).Nodup
    · obtain ⟨m, hm⟩ : ∃ m, emitOf log (List.finRange log.length) (fun _ => none) = .ok m :=
        ⟨_, emitOf_ok.mpr ⟨fun _ _ _ _ => rfl, emits_nodup_iff.mpr he, rfl⟩⟩
      simp only [hm] at h
      have hkind : e.kind = .missingEmit := by
        split at h
        · rename_i e' herr
          cases h
          exact messageEdges_fails m _ _ herr
        · cases h
      rw [hkind]
      exact .recvs hc he hnot
    · have hkind : e.kind = .duplicateEmit := by
        split at h
        · rename_i e' herr
          cases h
          exact emitOf_fails _ _ _ herr
        · rename_i m hm
          exact absurd (emits_nodup_iff.mp (emitOf_ok.mp hm).2.1) he
      rw [hkind]
      exact .emits hc he
  · have hkind : e.kind = .duplicateSeq := by
      unfold buildEdges at h
      cases hprogram : programEdges log (byActor log).toList with
      | error e' =>
        rw [hprogram] at h
        cases h
        exact programEdges_fails _ _ hprogram
      | ok es => exact absurd (chains_iff_coords.mp (programEdges_ok.mp hprogram).1) hc
    rw [hkind]
    exact .coords hc

/-- **The error `replay_log` returns is that of the first stage the log does not pass.** -/
theorem refused_of_error {log : List CausalEvent} {e : ReplayError}
    (h : replayLog log = .error e) : Refused log e.kind := by
  have hnot : ¬ Accepted log := by
    intro hacc
    obtain ⟨r, hr⟩ := replayLog_ok_iff.mpr hacc
    rw [h] at hr
    cases hr
  unfold replayLog Poset.build at h
  cases hb : buildEdges log with
  | error e' =>
    rw [hb] at h
    cases h
    exact refused_of_buildEdges hb
  | ok es =>
    simp only [hb, bind, Except.bind, pure, Except.pure] at h
    cases hv : Poset.validate ⟨log, es⟩ with
    | error e' =>
      simp only [hv] at h
      cases h
      have hkind : e.kind = .inconsistent := validateEdges_fails _ _ _ hv
      rw [hkind]
      exact .clocks (buildEdges_ok.mp hb).1 hnot
    | ok u => exact absurd ((accepted_iff_validate hb).mp (validateEdges_ok.mp hv)) hnot

/-! ## The order of the lines -/

/-- The sort key of an event, without its index. -/
def CausalEvent.timelineKey (e : CausalEvent) : Nat ×ₗ (String ×ₗ Nat) :=
  toLex (e.lamport, toLex (e.actor, e.seq))

theorem timelineKey_le {p : Poset} {i j : Fin p.events.length} (h : p.key i ≤ p.key j) :
    (eventAt p.events i).timelineKey ≤ (eventAt p.events j).timelineKey := by
  unfold Poset.key at h
  unfold CausalEvent.timelineKey
  simp only [Prod.Lex.toLex_le_toLex] at h ⊢
  rcases h with h | ⟨h, h' | ⟨h', h'' | ⟨h'', -⟩⟩⟩
  · exact .inl h
  · exact .inr ⟨h, .inl h'⟩
  · exact .inr ⟨h, .inr ⟨h', h''.le⟩⟩
  · exact .inr ⟨h, .inr ⟨h', h''.le⟩⟩

/-- **In an accepted log the index never decides a tie.** -/
theorem timelineKey_injective {log : List CausalEvent} (hwf : WellFormed log) :
    Function.Injective fun i => (eventAt log i).timelineKey := by
  intro i j hij
  have hactor : (eventAt log i).actor = (eventAt log j).actor :=
    congrArg (fun k => (ofLex (ofLex k).2).1) hij
  have hseq : (eventAt log i).seq = (eventAt log j).seq :=
    congrArg (fun k => (ofLex (ofLex k).2).2) hij
  exact coords_get_inj hwf.coords hactor hseq

theorem schedule_greedy_timelineKey (p : Poset) :
    Greedy (fun i => (eventAt p.events i).timelineKey) p.edges p.schedule :=
  p.schedule_greedy.coarsen fun _ _ => timelineKey_le

section Shuffle

variable {log log' : List CausalEvent} (hp : log.Perm log')
include hp

/-- Where each line of a log stands in another order of it. -/
theorem exists_rename (hwf : WellFormed log) : ∃ σ : Fin log.length ≃ Fin log'.length,
    ∀ i, eventAt log' (σ i) = eventAt log i := by
  have hnd : log.Nodup := hwf.nodup
  have hnd' : log'.Nodup := hp.nodup_iff.mp hnd
  let σ := ((hnd.getEquiv log).trans (Equiv.subtypeEquivRight fun e => hp.mem_iff)).trans
    (hnd'.getEquiv log').symm
  refine ⟨σ, fun i => ?_⟩
  have hσ : hnd'.getEquiv log' (σ i) = ⟨eventAt log i, hp.mem_iff.mp (eventAt_mem log i)⟩ :=
    Equiv.apply_symm_apply _ _
  exact congrArg Subtype.val hσ

theorem next_perm {a b : CausalEvent} : Next log a b ↔ Next log' a b := by
  unfold Next
  simp only [hp.mem_iff]

variable {es : List (Fin log.length × Fin log.length)}
  {es' : List (Fin log'.length × Fin log'.length)} (hes : buildEdges log = .ok es)
  (hes' : buildEdges log' = .ok es') {σ : Fin log.length ≃ Fin log'.length}
  (hσ : ∀ i, eventAt log' (σ i) = eventAt log i)
include hes hes' hσ

theorem edge_rename (i j : Fin log.length) : Edge es i j ↔ Edge es' (σ i) (σ j) := by
  rw [edge_iff hes, edge_iff hes', hσ, hσ, next_perm hp]

/-- **The schedules of two orders of one log agree.** -/
theorem schedule_rename (hacc : Accepted log) :
    (Poset.schedule ⟨log, es⟩).map σ = Poset.schedule ⟨log', es'⟩ := by
  have hacc' := hacc.perm hp
  have hedge := edge_rename hp hes hes' hσ
  obtain ⟨-, hall, hresp⟩ := linearize_of_acyclic ⟨log, es⟩ (acyclic_of_accepted hes hacc)
  obtain ⟨-, hall', hresp'⟩ := linearize_of_acyclic ⟨log', es'⟩ (acyclic_of_accepted hes' hacc')
  have hgreedy : Greedy (fun j => (eventAt log' j).timelineKey) es'
      ((Poset.schedule ⟨log, es⟩).map σ) :=
    (schedule_greedy_timelineKey ⟨log, es⟩).rename σ hedge fun i =>
      congrArg CausalEvent.timelineKey (hσ i)
  have hnd : ((Poset.schedule ⟨log, es⟩).map σ).Nodup :=
    (Poset.schedule_spec ⟨log, es⟩).1.map σ.injective
  refine hgreedy.unique (timelineKey_injective hacc'.wellFormed)
    (schedule_greedy_timelineKey ⟨log', es'⟩) (hresp.rename σ hedge) hresp' hnd ?_
  refine (List.perm_ext_iff_of_nodup hnd (Poset.schedule_spec ⟨log', es'⟩).1).mpr fun j => ?_
  refine iff_of_true (List.mem_map.mpr ⟨σ.symm j, ?_, σ.apply_symm_apply j⟩) ?_
  · exact hall.mem_iff.mpr (List.mem_finRange _)
  · exact hall'.mem_iff.mpr (List.mem_finRange _)

end Shuffle

/-- **The timeline does not depend on the order of the lines.** -/
theorem timeline_perm {log log' : List CausalEvent} (hp : log.Perm log') {r r' : Replayed}
    (hr : replayLog log = .ok r) (hr' : replayLog log' = .ok r') : r.timeline = r'.timeline := by
  obtain ⟨es, hes, hacc, rfl⟩ := replayLog_ok.mp hr
  obtain ⟨es', hes', -, rfl⟩ := replayLog_ok.mp hr'
  obtain ⟨σ, hσ⟩ := exists_rename hp hacc.wellFormed
  simp only [replayedOf, ← schedule_rename hp hes hes' hσ hacc, List.map_map]
  exact List.map_congr_left fun i _ => (hσ i).symm

/-! ## The edges and the concurrent pairs -/

theorem programPart_nodup (log : List CausalEvent) : (programPart log).Nodup := by
  refine List.nodup_flatMap.mpr ⟨fun g hg => ?_, ?_⟩
  · refine List.Nodup.of_map Prod.snd ?_
    rw [List.map_snd_zip (by simp)]
    exact (sortBySeq_nodup hg).sublist (List.tail_sublist _)
  · -- the groups of two actors share no event
    refine (byActor log).distinct_keys_toList.imp_of_mem fun {g g'} hg hg' hne => ?_
    rintro ⟨i, j⟩ h h'
    have hi := (mem_sortBySeq hg).mp (List.of_mem_zip h).1
    have hi' := (mem_sortBySeq hg').mp (List.of_mem_zip h').1
    exact hne (Std.LawfulEqCmp.compare_eq_iff_eq.mpr (hi.symm.trans hi'))

theorem messagePart_nodup (log : List CausalEvent) : (messagePart log).Nodup := by
  refine List.Nodup.filterMap (fun i j e hi hj => ?_) (List.nodup_finRange _)
  obtain ⟨_, _, rfl⟩ := Option.map_eq_some_iff.mp hi
  obtain ⟨_, _, h⟩ := Option.map_eq_some_iff.mp hj
  exact (Prod.mk.inj h).2.symm

/-- Under a bijection of the nodes the same pairs have the same multiset of images. -/
theorem map_rename_perm {V W : Type} (σ : V ≃ W) {l : List (V × V)} {l' : List (W × W)}
    (hnd : l.Nodup) (hnd' : l'.Nodup) (h : ∀ i j, (i, j) ∈ l ↔ (σ i, σ j) ∈ l') :
    (l.map (Prod.map σ σ)).Perm l' := by
  have hinj : Function.Injective (Prod.map σ σ) := σ.injective.prodMap σ.injective
  refine (List.perm_ext_iff_of_nodup (hnd.map hinj) hnd').mpr ?_
  rintro ⟨x, y⟩
  obtain ⟨i, rfl⟩ := σ.surjective x
  obtain ⟨j, rfl⟩ := σ.surjective y
  rw [← h i j]
  exact List.mem_map_of_injective hinj (a := (i, j))

section Shuffle

variable {log log' : List CausalEvent} (hp : log.Perm log')
  {es : List (Fin log.length × Fin log.length)} {es' : List (Fin log'.length × Fin log'.length)}
  (hes : buildEdges log = .ok es) (hes' : buildEdges log' = .ok es')
include hp hes hes'

/-- The edges of two orders of a log are the same multiset of pairs of events. -/
theorem edges_perm :
    (es.map (Prod.map (eventAt log) (eventAt log))).Perm
      (es'.map (Prod.map (eventAt log') (eventAt log'))) := by
  obtain ⟨hwf, rfl⟩ := buildEdges_ok.mp hes
  obtain ⟨hwf', rfl⟩ := buildEdges_ok.mp hes'
  obtain ⟨σ, hσ⟩ := exists_rename hp hwf
  have hprogram := map_rename_perm σ (programPart_nodup log) (programPart_nodup log') fun i j => by
    rw [mem_programPart hwf, mem_programPart hwf', hσ, hσ, next_perm hp]
  have hmessage := map_rename_perm σ (messagePart_nodup log) (messagePart_nodup log') fun i j => by
    rw [mem_messagePart hwf, mem_messagePart hwf', hσ, hσ]
  have hmap := (hprogram.append hmessage).map (Prod.map (eventAt log') (eventAt log'))
  rw [← List.map_append, List.map_map] at hmap
  have hfun : Prod.map (eventAt log') (eventAt log') ∘ Prod.map σ σ =
      Prod.map (eventAt log) (eventAt log) := by
    funext q
    exact Prod.ext (hσ q.1) (hσ q.2)
  rwa [hfun] at hmap

omit hp hes hes' in
/-- The listed pairs, in either orientation. -/
theorem mem_concurrentPairs {a b : String} :
    ((a, b) ∈ concurrentPairs ⟨log, es⟩ ∨ (b, a) ∈ concurrentPairs ⟨log, es⟩) ↔
      ∃ i j, i ≠ j ∧ ¬ Path es i j ∧ ¬ Path es j i ∧
        (eventAt log i).id = a ∧ (eventAt log j).id = b := by
  have hlisted : ∀ x y : String, (x, y) ∈ concurrentPairs ⟨log, es⟩ ↔ ∃ i j, i < j ∧
      ¬ Path es i j ∧ ¬ Path es j i ∧ (eventAt log i).id = x ∧ (eventAt log j).id = y := by
    intro x y
    rw [concurrentPairs_eq, List.mem_map]
    constructor
    · rintro ⟨⟨i, j⟩, hmem, h⟩
      obtain ⟨hlt, hij, hji⟩ := mem_unordered.mp hmem
      exact ⟨i, j, hlt, hij, hji, (Prod.mk.inj h).1, (Prod.mk.inj h).2⟩
    · rintro ⟨i, j, hlt, hij, hji, rfl, rfl⟩
      exact ⟨(i, j), mem_unordered.mpr ⟨hlt, hij, hji⟩, rfl⟩
  rw [hlisted, hlisted]
  constructor
  · rintro (⟨i, j, hlt, hij, hji, ha, hb⟩ | ⟨i, j, hlt, hij, hji, hb, ha⟩)
    · exact ⟨i, j, hlt.ne, hij, hji, ha, hb⟩
    · exact ⟨j, i, hlt.ne', hji, hij, ha, hb⟩
  · rintro ⟨i, j, hne, hij, hji, ha, hb⟩
    rcases lt_or_gt_of_ne hne with hlt | hlt
    · exact .inl ⟨i, j, hlt, hij, hji, ha, hb⟩
    · exact .inr ⟨j, i, hlt, hji, hij, hb, ha⟩

theorem concurrentPairs_perm (a b : String) :
    ((a, b) ∈ concurrentPairs ⟨log, es⟩ ∨ (b, a) ∈ concurrentPairs ⟨log, es⟩) ↔
      ((a, b) ∈ concurrentPairs ⟨log', es'⟩ ∨ (b, a) ∈ concurrentPairs ⟨log', es'⟩) := by
  obtain ⟨σ, hσ⟩ := exists_rename hp (buildEdges_ok.mp hes).1
  have hpath : ∀ i j, Path es i j ↔ Path es' (σ i) (σ j) := fun i j =>
    Path.rename σ (edge_rename hp hes hes' hσ)
  rw [mem_concurrentPairs, mem_concurrentPairs]
  constructor
  · rintro ⟨i, j, hne, hij, hji, ha, hb⟩
    rw [hpath] at hij hji
    rw [← hσ] at ha hb
    exact ⟨σ i, σ j, σ.injective.ne hne, hij, hji, ha, hb⟩
  · rintro ⟨i', j', hne, hij, hji, ha, hb⟩
    obtain ⟨i, rfl⟩ := σ.surjective i'
    obtain ⟨j, rfl⟩ := σ.surjective j'
    rw [← hpath] at hij hji
    rw [hσ] at ha hb
    exact ⟨i, j, fun h => hne (congrArg σ h), hij, hji, ha, hb⟩

end Shuffle

/-- **The canonical replay does not depend on the order of lines in the log.**  On two orders of
one log `replay_log` fails with the same variant of error, or succeeds with the same timeline and
ids, the same multiset of edges and the same set of unordered concurrent pairs. -/
theorem replayLog_shuffle {log log' : List CausalEvent} (hp : log.Perm log') :
    (∃ e e', replayLog log = .error e ∧ replayLog log' = .error e' ∧ e.kind = e'.kind) ∨
    ∃ r r', replayLog log = .ok r ∧ replayLog log' = .ok r' ∧ r.timeline = r'.timeline ∧
      r.posetJson.events = r'.posetJson.events ∧ r.posetJson.edges.Perm r'.posetJson.edges ∧
      ∀ a b, ((a, b) ∈ r.posetJson.concurrent ∨ (b, a) ∈ r.posetJson.concurrent) ↔
        ((a, b) ∈ r'.posetJson.concurrent ∨ (b, a) ∈ r'.posetJson.concurrent) := by
  cases hr : replayLog log with
  | error e =>
    cases hr' : replayLog log' with
    | error e' =>
      refine .inl ⟨e, e', rfl, rfl, ?_⟩
      exact ((refused_of_error hr).perm hp).unique (refused_of_error hr')
    | ok r' =>
      obtain ⟨r, hok⟩ := replayLog_ok_iff.mpr ((replayLog_ok_iff.mp ⟨r', hr'⟩).perm hp.symm)
      rw [hr] at hok
      cases hok
  | ok r =>
    obtain ⟨r', hr'⟩ := replayLog_ok_iff.mpr ((replayLog_ok_iff.mp ⟨r, hr⟩).perm hp)
    have htimeline := timeline_perm hp hr hr'
    refine .inr ⟨r, r', rfl, hr', htimeline, ?_⟩
    obtain ⟨es, hes, -, rfl⟩ := replayLog_ok.mp hr
    obtain ⟨es', hes', -, rfl⟩ := replayLog_ok.mp hr'
    refine ⟨?_, ?_, concurrentPairs_perm hp hes hes'⟩
    · have hids := congrArg (List.map CausalEvent.id) htimeline
      simp only [replayedOf, List.map_map] at hids
      exact hids
    · have hids := (edges_perm hp hes hes').map (Prod.map CausalEvent.id CausalEvent.id)
      simp only [List.map_map] at hids
      exact hids

theorem replayLog_shuffle_origin : ∃ r r', replayLog originLog = .ok r ∧
    replayLog originLog.reverse = .ok r' ∧ r.timeline = r'.timeline := by
  have hok : (replayLog originLog).toOption.isSome = true := by decide
  rcases replayLog_shuffle originLog.reverse_perm.symm with ⟨e, _, he, _⟩ | h
  · rw [he] at hok
    cases hok
  · obtain ⟨r, r', hr, hr', htimeline, _⟩ := h
    exact ⟨r, r', hr, hr', htimeline⟩

/-! ## Lamport order -/

/-- **Where lamports grow along the reconstructed edges the timeline is the log sorted by
(lamport, actor, seq).** -/
theorem timeline_sorted {log : List CausalEvent} {r : Replayed} (hr : replayLog log = .ok r)
    {es : List (Fin log.length × Fin log.length)} (hes : buildEdges log = .ok es)
    (hlamport : ∀ i j, Edge es i j → (eventAt log i).lamport < (eventAt log j).lamport) :
    r.timeline = log.insertionSort fun a b => a.timelineKey ≤ b.timelineKey := by
  obtain ⟨es', hes', hacc, rfl⟩ := replayLog_ok.mp hr
  cases hes.symm.trans hes'
  obtain ⟨-, hall, -⟩ := linearize_of_acyclic ⟨log, es⟩ (acyclic_of_accepted hes hacc)
  have hup : ∀ i j, Edge es i j →
      (eventAt log i).timelineKey < (eventAt log j).timelineKey := fun i j he =>
    Prod.Lex.toLex_lt_toLex.mpr (.inl (hlamport i j he))
  have hsorted : (replayedOf ⟨log, es⟩).timeline.Pairwise
      fun a b => a.timelineKey ≤ b.timelineKey := by
    refine List.pairwise_map.mpr ?_
    exact (schedule_greedy_timelineKey ⟨log, es⟩).sorted hup (Poset.schedule_spec ⟨log, es⟩).1
      fun i j _ _ => hall.mem_iff.mpr (List.mem_finRange i)
  have hnd : ((replayedOf ⟨log, es⟩).timeline.map CausalEvent.timelineKey).Nodup := by
    rw [replayedOf, List.map_map]
    exact (Poset.schedule_spec ⟨log, es⟩).1.map (timelineKey_injective hacc.wellFormed)
  exact KeyOrder.eq_insertionSort (KeyOrder.lt_of_nodup hsorted hnd) (timeline_spec hr).1

end Lichtung
