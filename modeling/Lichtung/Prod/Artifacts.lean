import Lichtung.Prod.Pipeline
import Lichtung.Prod.Record
import Lichtung.Replay.Artifacts

/-!
# The viz data of a run

What the examples that emit the viz data do from end to end: record a run, read its log back, replay
it, and write `timeline.jsonl` and `poset.json`.  The two files are read back here as a viewer would
read them.

Principal results: `Run.before_iff` and `Run.listings_eq` (the poset draws the order of the vector
clocks) and `Pipeline.artifacts_of_run`.
-/

namespace Lichtung.Prod

variable {ι τ α σ : Type} [DecidableEq ι] [DecidableEq τ] [Fintype ι] {sys : Topology ι τ α σ}

/-! ## The replay of a recorded log -/

section Runs

variable {s : Config ι τ α σ} {ls : List (Label ι α)} (hn : Named sys) (h : Run sys ls s)
  {r : Replayed} (hr : replayLog s.events = .ok r)
include hn h hr

/-- The timeline of a run is its log sorted by (lamport, actor, seq). -/
theorem Run.timeline_eq :
    r.timeline = s.events.insertionSort fun a b => a.timelineKey ≤ b.timelineKey := by
  have hacc := h.account hn
  obtain ⟨es, hes, -, -⟩ := replayLog_ok.mp hr
  refine timeline_sorted hr hes fun i j he => ?_
  have hcause := (Poset.edge_cases hes he).imp_right
    (hacc.written _ (eventAt_mem _ j)).paired.mp
  exact (h.ordered hn).lamport_lt hacc.issued (eventAt_mem _ i) (eventAt_mem _ j) hcause

theorem Run.ids_nodup : (s.events.map (·.id)).Nodup := by
  have hok : Accepted s.events := replayLog_ok_iff.mp ⟨r, hr⟩
  exact (h.account hn).ids_nodup hok.wellFormed.coords

variable (h1 : ls.countP Label.injects ≤ 1)
include h1

/-- **The edges draw the order of the vector clocks**, in which no two events are equal. -/
theorem Run.before_iff {a b : CausalEvent} (ha : a ∈ s.events) (hb : b ∈ s.events) (hne : a ≠ b) :
    (r.posetJson.Before a.id b.id ↔ a.vclock.components < b.vclock.components) ∧
      (a.vclock.components ≤ b.vclock.components → a.vclock.components < b.vclock.components) := by
  have hacc := h.account hn
  have hw : recording.count s.events "world" ≤ 1 := by
    have := h.origins hn
    omega
  obtain ⟨cur, hcur, -⟩ := (hacc.chronicle hw).history
  have hcausal : CausallyBefore s.events a b ↔ a.vclock.components < b.vclock.components :=
    hcur.precedes_iff hacc.issued.sender_unique ha hb hne
  have hrel : (fun a b => a ∈ s.events ∧ b ∈ s.events ∧ (ProgramOrder a b ∨ Paired a b)) =
      fun a b => a ∈ s.events ∧ b ∈ s.events ∧ (ProgramOrder a b ∨ MessageOrder a b) := by
    funext a b
    exact propext (and_congr_right fun _ => and_congr_right fun hb => by
      rw [(hacc.written b hb).paired])
  refine ⟨?_, fun hle => hcausal.mp ?_⟩
  · rw [r.before_iff hr (h.ids_nodup hn hr) ha hb, hrel]
    exact hcausal
  · refine (hcur.precedes_of_le a ha b hb ?_).resolve_left hne
    rw [← hcur.counts.clock_own a ha]
    exact hle _

/-- **The listed pairs are those with incomparable clocks**, each listed once. -/
theorem Run.listings_eq {a b : CausalEvent} (ha : a ∈ s.events) (hb : b ∈ s.events) (hne : a ≠ b) :
    r.posetJson.listings a.id b.id = if Incomparable a b then 1 else 0 := by
  have hids := h.ids_nodup hn hr
  obtain ⟨hab, hlt⟩ := h.before_iff hn hr h1 ha hb hne
  obtain ⟨hba, hlt'⟩ := h.before_iff hn hr h1 hb ha hne.symm
  rcases r.listings_iff hr hids ha hb hne with ⟨hzero, hord⟩ | ⟨hone, hnot, hnot'⟩
  · rw [hzero, if_neg]
    rintro ⟨hle, hle'⟩
    exact hord.elim (fun h => hle (hab.mp h).le) fun h => hle' (hba.mp h).le
  · rw [hone, if_pos]
    exact ⟨fun hle => hnot (hab.mpr (hlt hle)), fun hle => hnot' (hba.mpr (hlt' hle))⟩

end Runs

/-! ## From the run to the two files -/

namespace Pipeline

variable {W V : Type} {json : SerdeJson} {sink : Sink W} {contents : W → List UInt8} {cap : Nat}
  {w : W} {ls : List (Label ι α)} {s : Pipeline ι τ α σ W} {file : Sink V}
  {written : V → List UInt8}

/-- **The viz data of a run draw its vector clocks.**  Take a run with at most one `send_external`
that returned `Ok(n)`, and files without I/O errors.  Its log is read back, accepted and written as
two files.  The timeline file reads back as the run's events sorted by (lamport, actor, seq).  The
poset file reads back as their ids in that order, edges from which one id is reached from another
exactly when its event's clock is strictly above, and pairs that list two ids, once, exactly when
the clocks are incomparable. -/
theorem artifacts_of_run (hjson : json.Lawful) (hlists : json.Lists) (hsink : sink.Honest contents)
    (hw : contents w = []) (h : Run sys json sink cap w ls s) (hn : Named sys) {n : Nat}
    (hres : s.result = some (.ok n)) (hlen : n < 2 ^ 64)
    (h1 : (ls.filterMap Label.ofSystem).countP Prod.Label.injects ≤ 1)
    (hfile : file.NoError written) {tl ps : V} (htl : written tl = []) (hps : written ps = []) :
    ∃ r tl' ps' p, emitViz json file tl ps (contents s.writer.bw.inner) = some (r, tl', ps') ∧
      readEvents json (written tl') = .ok r.timeline ∧
      r.timeline = s.system.events.insertionSort (fun a b => a.timelineKey ≤ b.timelineKey) ∧
      readPoset json (written ps') = some p ∧ p.events = r.timeline.map (·.id) ∧
      ∀ a ∈ s.system.events, ∀ b ∈ s.system.events, a ≠ b →
        (p.Before a.id b.id ↔ a.vclock.components < b.vclock.components) ∧
        p.listings a.id b.id = if Incomparable a b then 1 else 0 := by
  obtain ⟨-, hcount, hbytes⟩ := (h.kept hjson hsink hw).returned hres
  have hencodable := h.system.encodable (hcount ▸ hlen)
  have hread : readEvents json (contents s.writer.bw.inner) = .ok s.system.events := by
    rw [hbytes]
    exact readEvents_logBytes hjson hencodable
  have horigins := h.system.origins hn
  obtain ⟨r, hr⟩ := replayLog_ok_iff.mpr ((h.system.account hn).accepted (by omega))
  obtain ⟨tl', ps', hemit, hc, hposet⟩ := emitViz_ok hfile hjson hlists hread hr htl hps
  have hperm := (timeline_spec hr).1
  refine ⟨r, tl', ps', r.posetJson, hemit, ?_, h.system.timeline_eq hn hr, hposet, ?_,
    fun a ha b hb hne => ⟨(h.system.before_iff hn hr h1 ha hb hne).1,
      h.system.listings_eq hn hr h1 ha hb hne⟩⟩
  · rw [hc]
    exact readEvents_logBytes hjson fun e he => hencodable e (hperm.mem_iff.mp he)
  · obtain ⟨es, -, -, rfl⟩ := replayLog_ok.mp hr
    exact (List.map_map ..).symm

/-- One courier hands its origin to the other. -/
theorem artifacts_of_run_couriers : ∃ r tl ps p bytes,
    emitViz compactJson listSink [] [] bytes = some (r, tl, ps) ∧
    readEvents compactJson tl = .ok r.timeline ∧ readPoset compactJson ps = some p ∧
    p.events.length = 4 := by
  obtain ⟨c, hrun, hdone, hlen⟩ : ∃ c : Config Bool Unit Nat Unit,
      Prod.Run couriers closedDelivery c ∧ c.runner = .done ∧ c.events.length = 4 :=
    ⟨_, rfl, rfl, rfl⟩
  have hempty : id ([] : List UInt8) = [] := rfl
  obtain ⟨ls, s, hall, hlabels, rfl, hres⟩ := returns_of_run 8192 compactJson_lawful
    listSink_noError hempty hrun hdone
  rw [hlen] at hres
  obtain ⟨r, tl, ps, p, hemit, htl, hsorted, hps, hevents, -⟩ := artifacts_of_run
    compactJson_lawful compactJson_lists listSink_noError.honest hempty hall couriers_named hres
    (by omega) (by rw [hlabels]; decide) listSink_noError hempty hempty
  refine ⟨r, tl, ps, p, _, hemit, htl, hps, ?_⟩
  rw [hevents, hsorted, List.length_map, List.length_insertionSort, hlen]

end Pipeline

end Lichtung.Prod
