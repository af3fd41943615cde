import Lichtung.Replay.Containment

/-!
# Every linear extension gives the same verdict

The canonical timeline is one of many orders of the recorded events that respect the poset.  If the
walk of one of them reports nothing, every walk follows it on all events: the verdict, the produced
events and the final states do not depend on the order.

Principal results: `Reference.confluent` (two walks of one system) and `replay_confluent`.
-/

namespace Lichtung

open EdgeGraph

variable {τ α σ : Type} [DecidableEq τ] {sys : ReplaySystem τ α σ}
  {log timeline timeline' : List CausalEvent} {seeds seeds' : List (CausalEvent × Envelope τ α)}
  {d d' : Driver τ α σ}

/-- A reference produces the recorded events but the origins. -/
theorem Reference.mem_events_iff (h : Reference sys log timeline seeds d) {e : CausalEvent} :
    e ∈ d.state.journal.events ↔ e ∈ log ∧ ¬ e.IsOrigin := by
  refine ⟨fun he => ⟨(h.mem_log he).1, fun ho => ?_⟩, fun ⟨he, ho⟩ => ?_⟩
  · have hactor := (h.mem_log he).2
    rw [ho.2] at hactor
    exact h.world hactor
  · exact (h.made he).resolve_right fun hseed => ho (h.of_seeds hseed).2

theorem Reference.mem_produced_iff (h : Reference sys log timeline seeds d) {id : String} :
    id ∈ d.state.produced ↔ ∃ e ∈ log, e.id = id := by
  constructor
  · intro hid
    obtain ⟨e, he, heid⟩ := h.faithful.state.produced id hid
    refine ⟨e, ?_, heid⟩
    rcases List.mem_append.mp he with he | he
    · exact (h.of_seeds he).1
    · exact (h.mem_log he).1
  · rintro ⟨e, he, rfl⟩
    exact h.produced e he

omit [DecidableEq τ] in
theorem spared_all (sys : ReplaySystem τ α σ) (log : List CausalEvent) :
    Spared sys sys log fun _ => True :=
  ⟨fun _ _ _ => rfl, fun _ _ _ _ _ _ => trivial⟩

/-- Where everything is spared every actor ends up as in the reference. -/
theorem Follows.same_local (hf : Follows d d' (fun _ => True) timeline')
    (h : Reference sys log timeline seeds d)
    (hw : d'.Walk sys log seeds sys.actors.keys timeline') (horder : Extends log timeline')
    {a : ActorId} (ha : a ∈ sys.actors) : ∃ l, d.Shows a l ∧ d'.Shows a l := by
  have horder' : Extends log (timeline' ++ []) := by rwa [List.append_nil]
  have htaken := hf.exact h hw horder' (a := a) fun _ _ _ _ => trivial
  have hself : (d.taken a).filter (fun t => decide (t.1 ∈ timeline')) = d.taken a :=
    List.filter_eq_self.mpr fun t ht =>
      decide_eq_true (horder.perm.mem_iff.mpr (h.taken_recv ht).1)
  obtain ⟨l, ⟨t, ht, hrun⟩, hshows⟩ := h.walk.locals a ha
  obtain ⟨l', ⟨t', ht', hrun'⟩, hshows'⟩ := hw.locals a ha
  obtain rfl : t = t' := Option.some.inj (ht.symm.trans ht')
  rw [Driver.inputs_rebuilt ha, htaken, hself, ← Driver.inputs_rebuilt ha, hrun] at hrun'
  obtain rfl : l = l' := Option.some.inj hrun'
  exact ⟨l, hshows, hshows'⟩

/-- **If one walk of a system reports nothing, no walk of it does, and all end alike.** -/
theorem Reference.confluent (h : Reference sys log timeline seeds d) (horder : Extends log timeline')
    (hd : sys.reexecute log timeline' = .ok d') :
    d'.state.divergences = [] ∧ ∀ a : ActorId, d'.actors[a]? = d.actors[a]? := by
  obtain ⟨d₂, hf, hw, rfl⟩ := h.contains (spared_all sys log) h.world rfl horder hd
    fun a _ => .inl ⟨rfl, fun _ _ _ => trivial⟩
  have hunnamed : ∀ x ∈ (d₂.state.complete log).divergences, ∀ e ∈ log, x.eventId ≠ e.id :=
    fun x hx e he =>
      hf.spared_unnamed h (spared_all sys log) h.world hw horder he trivial x hx
  refine ⟨List.eq_nil_iff_forall_not_mem.mpr fun x hx => ?_, fun a => ?_⟩
  · have hno := hunnamed x hx
    obtain ⟨ds, hds, hall⟩ := complete_eq log d₂.state
    rw [hds] at hx
    rcases List.mem_append.mp hx with hwalk | hcomplete
    · cases hw.trail.charged x hwalk with
      | @mismatch e he hid hne =>
        have hrebuilt : e.actor ∈ sys.actors := (h.maker_rebuilt hw horder he).elim id id
        obtain ⟨l, hshows, hshows'⟩ := hf.same_local h hw horder hrebuilt
        have hmem : e ∈ d.state.journal.events := by
          refine List.mem_of_mem_filter (p := fun f => decide (f.actor = e.actor)) ?_
          rw [← hshows.events, hshows'.events]
          exact List.mem_filter.mpr ⟨he, by simp⟩
        exact hno e (h.mem_log hmem).1 hid
      | @overSend a j hj hover hid =>
        by_cases ha : a ∈ sys.actors
        · obtain ⟨l, hshows, hshows'⟩ := hf.same_local h hw horder ha
          rw [← hshows'.sends, hshows.sends] at hj
          exact h.walk.trail.reported a j hj hover h.silent
        · rw [hw.trail.unsent a ha] at hj
          exact absurd hj (Nat.not_lt_zero j)
      | unserved hev hop hid hmissed => exact hno _ (horder.perm.mem_iff.mp hev) hid
    · obtain ⟨e, he, -, hid⟩ := hall x hcomplete
      exact hno e he hid
  · show d₂.actors[a]? = d.actors[a]?
    by_cases ha : a ∈ sys.actors
    · obtain ⟨l, hshows, hshows'⟩ := hf.same_local h hw horder ha
      rw [hshows.actor, hshows'.actor]
    · rw [Std.ExtTreeMap.getElem?_eq_none fun hin => ha ((hw.actors a).mp hin),
        Std.ExtTreeMap.getElem?_eq_none fun hin => ha ((h.walk.actors a).mp hin)]

/-- Two references of one system have produced the same events and ended in the same states. -/
theorem Reference.alike (h : Reference sys log timeline seeds d)
    (h' : Reference sys log timeline' seeds' d') : d'.state.produced = d.state.produced ∧
      d'.state.journal.events.Perm d.state.journal.events := by
  refine ⟨Finset.ext fun id => ?_, ?_⟩
  · rw [h.mem_produced_iff, h'.mem_produced_iff]
  · refine (List.perm_ext_iff_of_nodup h'.faithful.state.numbered.nodup
      h.faithful.state.numbered.nodup).mpr fun e => ?_
    rw [h.mem_events_iff, h'.mem_events_iff]

/-- **The choice of linear extension does not affect the verdict.**  Take a log with ids `actor:seq`
and msg_ids `m<n>`, a system without an actor `world`, and any list of the nodes that respects the
reconstructed edges.  The walk of that list is faithful exactly when the walk of the canonical
timeline is, and then both produce the same events and leave every actor in the same state. -/
theorem replay_confluent (hids : ∀ e ∈ log, e.id = idOf e.actor e.seq)
    (hmids : ∀ e ∈ log, e.PlainMid) (hworld : "world" ∉ sys.actors) {r : Replayed}
    (hd : sys.replayRun log = .ok (r, d)) {es : List (Fin log.length × Fin log.length)}
    (hes : Poset.buildEdges log = .ok es) {order : List (Fin log.length)}
    (hperm : order.Perm (List.finRange log.length)) (hresp : Respects es order)
    (hd' : sys.reexecute log (order.map (eventAt log)) = .ok d') :
    (d'.state.divergences = [] ↔ d.state.divergences = []) ∧
      (d.state.divergences = [] → d'.state.produced = d.state.produced ∧
        d'.state.journal.events.Perm d.state.journal.events ∧
        ∀ a : ActorId, d'.actors[a]? = d.actors[a]?) := by
  obtain ⟨hlog, hd⟩ := replayRun_ok.mp hd
  have hwf := (replayLog_ok_iff.mp ⟨r, hlog⟩).wellFormed
  have hmids' : ∀ e ∈ log, e.op = .emit ∨ e.op = .recv → e.PlainMid := fun e he _ => hmids e he
  have hcanonical := timeline_extends hlog
  have hother := extends_of_respects hes hperm hresp
  refine ⟨⟨fun hs => ?_, fun hs => ?_⟩, fun hs => ?_⟩
  · obtain ⟨_, h⟩ := Reference.of_reexecute hwf hids hmids' hworld hother hd' hs
    exact (h.confluent hcanonical hd).1
  · obtain ⟨_, h⟩ := Reference.of_reexecute hwf hids hmids' hworld hcanonical hd hs
    exact (h.confluent hother hd').1
  · obtain ⟨_, h⟩ := Reference.of_reexecute hwf hids hmids' hworld hcanonical hd hs
    obtain ⟨hs', hactors⟩ := h.confluent hother hd'
    obtain ⟨_, h'⟩ := Reference.of_reexecute hwf hids hmids' hworld hother hd' hs'
    obtain ⟨hproduced, hevents⟩ := h.alike h'
    exact ⟨hproduced, hevents, hactors⟩

/-! ## Two origins for two sinks -/

/-- A sink on the left and one on the right, with an origin for each. -/
def sinksSystem : ReplaySystem Unit Nat Unit :=
  (((ReplaySystem.new.spawn "left" ⟨sink, ()⟩).spawn "right" ⟨sink, ()⟩).origin ⟨"left", ()⟩ 1).origin
    ⟨"right", ()⟩ 2

/-- Both origins, and what each sink does with its own. -/
def sinksLog : List CausalEvent :=
  let w₁ := Stamps.zero.bump "world"
  let w₂ := w₁.bump "world"
  let left := w₁.envelope "world" 1 (⟨"left", ()⟩ : Addr Unit) 1
  let right := w₂.envelope "world" 2 (⟨"right", ()⟩ : Addr Unit) 2
  let l := Stamps.zero.receive "left" left
  let r := Stamps.zero.receive "right" right
  [emitEvent "world" 1 left, emitEvent "world" 2 right,
    recvEvent "left" 1 l.clock l.lamport.val left,
    computeEvent "left" 2 (l.bump "left").clock (l.bump "left").lamport.val,
    recvEvent "right" 1 r.clock r.lamport.val right,
    computeEvent "right" 2 (r.bump "right").clock (r.bump "right").lamport.val]

/-- The right sink first. -/
def rightFirst : List (Fin sinksLog.length) :=
  [⟨0, by decide⟩, ⟨1, by decide⟩, ⟨4, by decide⟩, ⟨5, by decide⟩, ⟨2, by decide⟩, ⟨3, by decide⟩]

theorem replay_confluent_sinks : ∃ r d d', sinksSystem.replayRun sinksLog = .ok (r, d) ∧
    r.timeline ≠ rightFirst.map (eventAt sinksLog) ∧
    sinksSystem.reexecute sinksLog (rightFirst.map (eventAt sinksLog)) = .ok d' ∧
    d'.state.divergences = [] ∧ d'.state.produced = d.state.produced := by
  have hplain : ∀ e ∈ sinksLog, e.PlainMid := by
    intro e he
    simp only [sinksLog, List.mem_cons, List.not_mem_nil, or_false] at he
    rcases he with rfl | rfl | rfl | rfl | rfl | rfl
    · exact emitEvent_plain _ _ _
    · exact emitEvent_plain _ _ _
    · exact recvEvent_plain _ _ _ _ _
    · exact computeEvent_plain _ _ _ _
    · exact recvEvent_plain _ _ _ _ _
    · exact computeEvent_plain _ _ _ _
  have hrun : (sinksSystem.replayRun sinksLog).toOption.map (fun p =>
      decide (p.1.timeline ≠ rightFirst.map (eventAt sinksLog)) && p.2.state.divergences.isEmpty) =
        some true := by decide
  have hother : (sinksSystem.reexecute sinksLog (rightFirst.map (eventAt sinksLog))).toOption.isSome
      = true := by decide
  have hedges : (Poset.buildEdges sinksLog).toOption.map (fun es => decide (Respects es rightFirst)) =
      some true := by decide
  cases hd : sinksSystem.replayRun sinksLog with
  | error e => rw [hd] at hrun; cases hrun
  | ok p =>
    cases hd' : sinksSystem.reexecute sinksLog (rightFirst.map (eventAt sinksLog)) with
    | error e => rw [hd'] at hother; cases hother
    | ok d' =>
      cases hes : Poset.buildEdges sinksLog with
      | error e => rw [hes] at hedges; cases hedges
      | ok es =>
        rw [hd] at hrun
        rw [hes] at hedges
        obtain ⟨htime, hempty⟩ := (Bool.and_eq_true _ _).mp (Option.some.inj hrun)
        have hnil := List.isEmpty_iff.mp hempty
        obtain ⟨hiff, hsame⟩ := replay_confluent (by decide) hplain (by decide) hd hes
          (by decide) (of_decide_eq_true (Option.some.inj hedges)) hd'
        exact ⟨p.1, p.2, d', rfl, of_decide_eq_true htime, rfl, hiff.mpr hnil, (hsame hnil).1⟩

end Lichtung
