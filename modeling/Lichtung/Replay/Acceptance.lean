import Lichtung.Replay.Engine

/-!
# What `Poset::build` accepts and reconstructs

The doc comment of `Poset::build` pairs each `emit` with its matching `recv` (same `msg_id`).
`CarriedWell` asks this of a log in its own terms.  The code reads an absent `msg_id` of a recv as
the empty string, so it also pairs such a recv with an emit whose `msg_id` is the empty string.

Principal results: `paired_iff` (what the code pairs beyond message order), `carriedWell_iff` and
`build_exact_iff` (the logs on which `build` is exact).
-/

namespace Lichtung

open EdgeGraph Poset

/-- No two events share a coordinate, no two emits carry the same msg_id, and every recv carries a
msg_id that some emit carries. -/
structure CarriedWell (log : List CausalEvent) : Prop where
  coords : (log.map fun e => (e.actor, e.seq)).Nodup
  emits : (log.filterMap CausalEvent.sent).Nodup
  recvs : ∀ r ∈ log, r.op = .recv →
    ∃ m, r.msgId = some m ∧ ∃ e ∈ log, e.op = .emit ∧ e.msgId = some m

/-- A recv without a msg_id beside an emit that carries the empty string. -/
def Defaulted (log : List CausalEvent) : Prop :=
  (∃ r ∈ log, r.op = .recv ∧ r.msgId = none) ∧ ∃ e ∈ log, e.op = .emit ∧ e.msgId = some ""

/-- **Besides message order, the code pairs an emit that carries the empty string with every recv
that carries no msg_id.** -/
theorem paired_iff {a b : CausalEvent} : Paired a b ↔ MessageOrder a b ∨
    ((a.op = .emit ∧ a.msgId = some "") ∧ b.op = .recv ∧ b.msgId = none) := by
  constructor
  · rintro ⟨s, ha, hb⟩
    obtain ⟨hemit, hs⟩ := CausalEvent.sent_eq_some.mp ha
    obtain ⟨hrecv, hd⟩ := CausalEvent.wanted_eq_some.mp hb
    cases hm : b.msgId with
    | some m =>
      rw [hm, Option.getD_some] at hd
      subst hd
      exact .inl ⟨hemit, hrecv, m, hs, hm⟩
    | none =>
      rw [hm, Option.getD_none] at hd
      subst hd
      exact .inr ⟨⟨hemit, hs⟩, hrecv, rfl⟩
  · rintro (h | ⟨ha, hrecv, hm⟩)
    · exact h.paired
    · refine ⟨"", CausalEvent.sent_eq_some.mpr ha, CausalEvent.wanted_eq_some.mpr ⟨hrecv, ?_⟩⟩
      rw [hm, Option.getD_none]

/-- On a log that is not defaulted the code pairs by message order. -/
theorem paired_iff_messageOrder {log : List CausalEvent} (h : ¬ Defaulted log) {a b : CausalEvent}
    (ha : a ∈ log) (hb : b ∈ log) : Paired a b ↔ MessageOrder a b := by
  rw [paired_iff, or_iff_left]
  rintro ⟨hemit, hrecv⟩
  exact h ⟨⟨b, hb, hrecv⟩, a, ha, hemit⟩

/-- A recv that carries no msg_id makes the log ill carried. -/
theorem Defaulted.not_carriedWell {log : List CausalEvent} (h : Defaulted log) :
    ¬ CarriedWell log := by
  intro hc
  obtain ⟨⟨r, hr, hrecv, hm⟩, -⟩ := h
  obtain ⟨m, hsome, -⟩ := hc.recvs r hr hrecv
  rw [hm] at hsome
  cases hsome

/-- The recvs that carry a msg_id, each with its emit. -/
def RecvsMatched (log : List CausalEvent) : Prop :=
  ∀ r ∈ log, r.op = .recv → ∀ m, r.msgId = some m → ∃ e ∈ log, e.op = .emit ∧ e.msgId = some m

theorem WellFormed.recvsMatched {log : List CausalEvent} (h : WellFormed log) :
    RecvsMatched log := by
  intro r hr hrecv m hm
  obtain ⟨e, he, hs⟩ := h.recvs r hr m (CausalEvent.wanted_eq_some.mpr ⟨hrecv, by rw [hm]; rfl⟩)
  exact ⟨e, he, CausalEvent.sent_eq_some.mp hs⟩

/-- A defaulted log is well formed where the rest of it is. -/
theorem Defaulted.wellFormed {log : List CausalEvent} (h : Defaulted log)
    (hcoords : (log.map fun e => (e.actor, e.seq)).Nodup)
    (hemits : (log.filterMap CausalEvent.sent).Nodup) (hrecvs : RecvsMatched log) :
    WellFormed log := by
  refine ⟨hcoords, hemits, fun r hr s hs => ?_⟩
  obtain ⟨hrecv, hd⟩ := CausalEvent.wanted_eq_some.mp hs
  cases hm : r.msgId with
  | some m =>
    rw [hm, Option.getD_some] at hd
    subst hd
    obtain ⟨e, he, hemit⟩ := hrecvs r hr hrecv m hm
    exact ⟨e, he, CausalEvent.sent_eq_some.mpr hemit⟩
  | none =>
    rw [hm, Option.getD_none] at hd
    subst hd
    obtain ⟨-, e, he, hemit⟩ := h
    exact ⟨e, he, CausalEvent.sent_eq_some.mpr hemit⟩

/-- **On a log that is not defaulted `build` asks for what its doc comment says.** -/
theorem carriedWell_iff {log : List CausalEvent} (h : ¬ Defaulted log) :
    CarriedWell log ↔ WellFormed log := by
  constructor
  · intro hc
    refine ⟨hc.coords, hc.emits, fun r hr s hs => ?_⟩
    obtain ⟨hrecv, hd⟩ := CausalEvent.wanted_eq_some.mp hs
    obtain ⟨m, hm, e, he, hemit⟩ := hc.recvs r hr hrecv
    rw [hm, Option.getD_some] at hd
    subst hd
    exact ⟨e, he, CausalEvent.sent_eq_some.mpr hemit⟩
  · intro hw
    refine ⟨hw.coords, hw.emits, fun r hr hrecv => ?_⟩
    cases hm : r.msgId with
    | some m => exact ⟨m, rfl, hw.recvsMatched r hr hrecv m hm⟩
    | none =>
      -- the empty string it looks up would have to be carried by an emit
      obtain ⟨e, he, hs⟩ := hw.recvs r hr "" (CausalEvent.wanted_eq_some.mpr
        ⟨hrecv, by rw [hm]; rfl⟩)
      exact absurd ⟨⟨r, hr, hrecv, hm⟩, e, he, CausalEvent.sent_eq_some.mp hs⟩ h

/-- `build` accepts exactly the logs its doc comment describes, and its edges generate exactly
program order and message order. -/
structure BuildsExactly (log : List CausalEvent) : Prop where
  accepts : (∃ p, Poset.build log = .ok p) ↔ CarriedWell log
  reconstructs : ∀ p, Poset.build log = .ok p → p.events = log ∧ ∀ i j, Path p.edges i j ↔
    Relation.TransGen (fun i j => ProgramOrder (eventAt p.events i) (eventAt p.events j) ∨
      MessageOrder (eventAt p.events i) (eventAt p.events j)) i j

theorem buildsExactly_of_not_defaulted {log : List CausalEvent} (h : ¬ Defaulted log) :
    BuildsExactly log := by
  refine ⟨build_ok_iff.trans (carriedWell_iff h).symm, fun p hp => ?_⟩
  obtain ⟨es, hes, hp⟩ := Except.bind_eq_ok.mp hp
  cases hp
  refine ⟨rfl, fun i j => (path_iff hes).trans ?_⟩
  have hrel : (fun i j => ProgramOrder (eventAt log i) (eventAt log j) ∨
      Paired (eventAt log i) (eventAt log j)) = fun i j =>
      ProgramOrder (eventAt log i) (eventAt log j) ∨
        MessageOrder (eventAt log i) (eventAt log j) := by
    funext i j
    rw [paired_iff_messageOrder h (eventAt_mem log i) (eventAt_mem log j)]
  rw [hrel]

/-- A defaulted log that is otherwise in order is accepted. -/
theorem Defaulted.not_buildsExactly {log : List CausalEvent} (h : Defaulted log)
    (hwf : WellFormed log) : ¬ BuildsExactly log := fun hb =>
  h.not_carriedWell (hb.accepts.mp (build_ok_iff.mpr hwf))

/-- **`build` is exact on a log unless the log is defaulted and otherwise in order**: then a recv
without a msg_id passes, matched with the emit that carries the empty string. -/
theorem build_exact_iff (log : List CausalEvent) : BuildsExactly log ↔
    (Defaulted log → ¬ ((log.map fun e => (e.actor, e.seq)).Nodup ∧
      (log.filterMap CausalEvent.sent).Nodup ∧ RecvsMatched log)) := by
  constructor
  · rintro hb hd ⟨hcoords, hemits, hrecvs⟩
    exact hd.not_buildsExactly (hd.wellFormed hcoords hemits hrecvs) hb
  · intro h
    by_cases hd : Defaulted log
    · -- neither side accepts the log
      have hnot : ¬ WellFormed log := fun hwf =>
        h hd ⟨hwf.coords, hwf.emits, hwf.recvsMatched⟩
      refine ⟨iff_of_false (fun hok => hnot (build_ok_iff.mp hok)) hd.not_carriedWell, ?_⟩
      exact fun p hp => absurd (build_ok_iff.mp ⟨p, hp⟩) hnot
    · exact buildsExactly_of_not_defaulted hd

/-- An emit that carries the empty string and a recv that carries nothing. -/
def unaddressed : List CausalEvent :=
  [{ computeEvent "a" 1 .new 1 with op := .emit, msgId := some "" },
    { computeEvent "b" 1 .new 1 with op := .recv }]

/-- The recv without a msg_id is accepted. -/
theorem build_accepts_unaddressed : ¬ BuildsExactly unaddressed := by
  have hd : Defaulted unaddressed := by
    refine ⟨⟨_, List.mem_cons_of_mem _ (List.mem_singleton_self _), rfl, rfl⟩, ?_⟩
    exact ⟨_, List.mem_cons_self .., rfl, rfl⟩
  have hwf : WellFormed unaddressed := by
    refine hd.wellFormed (by decide) (by decide) fun r hr hrecv m hm => ?_
    obtain rfl | rfl : r = _ ∨ r = _ := by simpa [unaddressed] using hr
    · cases hrecv
    · cases hm
  exact hd.not_buildsExactly hwf

end Lichtung
