import Lichtung.Replay.Faithful

/-!
# What a faithful verdict means

Principal results: `replay_exact` (without divergences the recording was reproduced event for
event) and `replay_routes` (what the verdict says about origins, addresses and receivers).
-/

namespace Lichtung

variable {τ α σ : Type}

/-! ## Reproducing a log -/

/-- The recorded world-line of an actor: its events by seq. -/
def worldLine (log : List CausalEvent) (a : ActorId) : List CausalEvent :=
  (log.filter (·.actor = a)).insertionSort fun e f => e.seq ≤ f.seq

/-- The call an event was recorded by, with the address of a send. -/
def CausalEvent.action (e : CausalEvent) : Option (Action (Option String) Unit) :=
  match e.op with
  | .emit => some (.send e.dst ())
  | .compute => some .compute
  | _ => none

/-- A world emit: an origin. -/
def CausalEvent.IsOrigin (e : CausalEvent) : Prop := e.op = .emit ∧ e.actor = "world"

/-- The run of `j` produced the recorded events, origins apart, once each and no others, and
consumed one envelope of its own for every recorded recv. -/
structure Reproduces (log : List CausalEvent) (j : Journal τ α) : Prop where
  events : ∀ e, e ∈ j.events ∨ e ∈ j.seeded.map Prod.fst ↔ e ∈ log
  seeded : ∀ e, e ∈ j.seeded.map Prod.fst ↔ e ∈ log ∧ e.IsOrigin
  once : ∀ e ∈ log, ¬ e.IsOrigin → j.events.count e = 1
  recvs : (j.consumed.map Prod.fst).Perm (log.filter (·.op = .recv))
  messages : ∀ t ∈ j.consumed, t.2 ∈ j.stashed ∧ t.1.msgId = mid t.2.msgId
  distinct : (j.consumed.map (·.2.msgId)).Nodup

theorem eq_of_sent {log : List CausalEvent} (h : (log.filterMap CausalEvent.sent).Nodup)
    {e f : CausalEvent} (he : e ∈ log) (hf : f ∈ log) {s : String} (hes : e.sent = some s)
    (hfs : f.sent = some s) : e = f := by
  obtain ⟨i, rfl⟩ := exists_eventAt he
  obtain ⟨j, rfl⟩ := exists_eventAt hf
  rw [Poset.sent_inj h hes hfs]

/-- The msg_ids announced by a list of emits. -/
theorem announced_mids {events : List CausalEvent} {sent : List (Envelope τ α)}
    (h : List.Forall₂ Announced events sent) :
    sent.map (fun env => mid env.msgId) = events.map (·.msgId) := by
  induction h with
  | nil => rfl
  | cons ha _ ih => rw [List.map_cons, List.map_cons, ih, ha.msgId]

theorem announced_some {events : List CausalEvent} {sent : List (Envelope τ α)}
    (h : List.Forall₂ Announced events sent) : ∀ e ∈ events, ∃ s, e.msgId = some s := by
  induction h with
  | nil => intro e he; cases he
  | cons ha _ ih =>
    intro e he
    rcases List.mem_cons.mp he with rfl | he
    · exact ⟨_, ha.msgId⟩
    · exact ih e he

theorem announced_of_mem {events : List CausalEvent} {sent : List (Envelope τ α)}
    (h : List.Forall₂ Announced events sent) {env : Envelope τ α} (henv : env ∈ sent) :
    ∃ e ∈ events, Announced e env := by
  induction h with
  | nil => cases henv
  | cons ha _ ih =>
    rcases List.mem_cons.mp henv with rfl | henv
    · exact ⟨_, List.mem_cons_self .., ha⟩
    · obtain ⟨e, he, h⟩ := ih henv
      exact ⟨e, List.mem_cons_of_mem _ he, h⟩

/-- An emit announces one of the envelopes sent. -/
theorem announces_of_mem {events : List CausalEvent} {sent : List (Envelope τ α)}
    (h : List.Forall₂ Announced events sent) {e : CausalEvent} (he : e ∈ events) :
    ∃ env ∈ sent, Announced e env := by
  induction h with
  | nil => cases he
  | cons ha _ ih =>
    rcases List.mem_cons.mp he with rfl | he
    · exact ⟨_, List.mem_cons_self .., ha⟩
    · obtain ⟨env, henv, h⟩ := ih he
      exact ⟨env, List.mem_cons_of_mem _ henv, h⟩

section Exact

variable {sys : ReplaySystem τ α σ} {log : List CausalEvent}
  {seeds : List (CausalEvent × Envelope τ α)} {timeline : List CausalEvent} {d : Driver τ α σ}
  (hwf : WellFormed log) (hids : ∀ e ∈ log, e.id = idOf e.actor e.seq)
  (hmids : ∀ e ∈ log, e.op = .emit ∨ e.op = .recv → e.PlainMid) (hworld : "world" ∉ sys.actors)
  (hperm : timeline.Perm log)
  (hsup : Supplied sys.origins 0 ((RecordedIndex.build log).emitsByActor "world") seeds)
  (hd : d.Faithful sys log seeds (timeline.filter (·.op = .recv)))
  (hall : ∀ e ∈ log, e.id ∈ d.state.produced)

include hsup in
theorem mem_seeds (e : CausalEvent) : e ∈ seeds.map Prod.fst ↔ e ∈ log ∧ e.IsOrigin := by
  rw [hsup.map_fst, RecordedIndex.mem_build_emits]; rfl

include hwf hids hsup hd hall in
/-- With distinct ids every recorded event was produced or seeded. -/
theorem mem_produced {e : CausalEvent} (he : e ∈ log) :
    e ∈ d.state.journal.events ∨ e ∈ seeds.map Prod.fst := by
  obtain ⟨f, hf, hid⟩ := hd.state.produced e.id (hall e he)
  have hflog : f ∈ log := (List.mem_append.mp hf).elim
    (fun h => ((mem_seeds hsup f).mp h).1) fun h => (hd.state.events f h).1
  have hfe : f = e := hwf.eq_of_id hflog he (hids f hflog) (hids e he) hid
  exact hfe ▸ (List.mem_append.mp hf).symm

include hworld hsup hd in
theorem not_mem_seeds {e : CausalEvent} (he : e ∈ d.state.journal.events) :
    e ∉ seeds.map Prod.fst := fun h =>
  hworld (((mem_seeds hsup e).mp h).2.2 ▸ (hd.state.events e he).2)

include hwf hmids hworld hsup hd in
/-- No two stashed envelopes share a msg_id: the emits that announce them are distinct recorded
events. -/
theorem stashed_nodup : (d.state.journal.stashed.map (·.msgId)).Nodup := by
  obtain ⟨emits, hemits⟩ : ∃ l, l = d.state.journal.events.filter (·.op = .emit) := ⟨_, rfl⟩
  have hsent := hd.state.routed.sent
  rw [← hemits] at hsent
  have hannounce : d.state.journal.stashed.map (fun env => mid env.msgId) =
      (seeds.map Prod.fst ++ emits).map (·.msgId) := by
    rw [Journal.stashed, hd.state.seeded, List.map_append, List.map_append, List.map_map,
      List.map_map, announced_mids hsent]
    congr 1
    refine List.map_congr_left fun p hp => ?_
    obtain ⟨hmem, hop, -⟩ := (mem_seeds hsup p.1).mp (List.mem_map_of_mem hp)
    exact ((hmids p.1 hmem (.inl hop)).mid_parsed (hsup.emit p hp).1).symm
  have hemit : ∀ e ∈ seeds.map Prod.fst ++ emits, e ∈ log ∧ ∃ s, e.sent = some s := by
    intro e he
    rcases List.mem_append.mp he with he | he
    · obtain ⟨hlog, hop, -⟩ := (mem_seeds hsup e).mp he
      obtain ⟨p, hp, rfl⟩ := List.mem_map.mp he
      obtain ⟨s, hs, -⟩ := Option.bind_eq_some_iff.mp (hsup.emit p hp).1
      exact ⟨hlog, s, by rw [CausalEvent.sent, if_pos hop, hs]⟩
    · obtain ⟨s, hs⟩ := announced_some hsent e he
      rw [hemits, List.mem_filter, decide_eq_true_eq] at he
      exact ⟨(hd.state.events e he.1).1, s, by rw [CausalEvent.sent, if_pos he.2, hs]⟩
  have hnd : (seeds.map Prod.fst ++ emits).Nodup := by
    refine List.nodup_append'.mpr ⟨?_, ?_, ?_⟩
    · rw [hsup.map_fst]
      exact RecordedIndex.build_emits_nodup hwf.nodup _
    · rw [hemits]; exact hd.state.numbered.nodup.filter _
    · intro e he he'
      rw [hemits] at he'
      exact not_mem_seeds hworld hsup hd (List.mem_of_mem_filter he') he
  have hmap : ((seeds.map Prod.fst ++ emits).map (·.msgId)).Nodup := by
    refine hnd.map_on fun e he f hf hef => ?_
    obtain ⟨helog, s, hs⟩ := hemit e he
    obtain ⟨hflog, t, ht⟩ := hemit f hf
    apply eq_of_sent hwf.emits helog hflog hs
    rw [(CausalEvent.sent_eq_some.mp hs).2, (CausalEvent.sent_eq_some.mp ht).2] at hef
    rw [ht, ← hef]
  rw [← hannounce] at hmap
  have hcomp : d.state.journal.stashed.map (fun env => mid env.msgId) =
      (d.state.journal.stashed.map (·.msgId)).map mid := by rw [List.map_map]; rfl
  rw [hcomp] at hmap
  exact hmap.of_map

include hwf hmids hworld hsup hd in
theorem consumed_nodup : (d.state.journal.consumed.map (·.2.msgId)).Nodup := by
  rw [List.nodup_iff_count_le_one]
  intro m
  have h1 := List.nodup_iff_count_le_one.mp (stashed_nodup hwf hmids hworld hsup hd) m
  have h2 := hd.state.routed.counts m
  omega

include hwf hids hmids hworld hperm hsup hd hall in
theorem Driver.Faithful.reproduces : Reproduces log d.state.journal := by
  have hseeded := hd.state.seeded
  refine {
    events := fun e => ⟨?_, fun he => ?_⟩
    seeded := fun e => by rw [hseeded]; exact mem_seeds hsup e
    once := fun e he ho => ?_
    recvs := by rw [hd.state.walked]; exact hperm.filter _
    messages := fun t ht => ?_
    distinct := consumed_nodup hwf hmids hworld hsup hd }
  · rintro (he | he)
    · exact (hd.state.events e he).1
    · rw [hseeded] at he; exact ((mem_seeds hsup e).mp he).1
  · rw [hseeded]; exact mem_produced hwf hids hsup hd hall he
  · have hmem := (mem_produced hwf hids hsup hd hall he).resolve_right
      fun h => ho ((mem_seeds hsup e).mp h).2
    exact List.count_eq_one_of_mem hd.state.numbered.nodup hmem
  · obtain ⟨hm, hs, -⟩ := hd.state.routed.consumed t ht
    have hmem : t.1 ∈ timeline.filter (·.op = .recv) := by
      rw [← hd.state.walked]; exact List.mem_map_of_mem ht
    obtain ⟨htime, hop⟩ := List.mem_filter.mp hmem
    exact ⟨hs, (hmids _ (hperm.mem_iff.mp htime) (.inr (by simpa using hop))).mid_parsed hm⟩

include hwf hids hsup hd hall in
/-- Every actor's produced events are, in the order it produced them, its recorded world-line. -/
theorem produced_line {a : ActorId} (ha : a ≠ "world") :
    d.state.journal.events.filter (·.actor = a) = worldLine log a := by
  refine KeyOrder.eq_insertionSort ?_ ?_
  · have hlt : ((d.state.journal.events.filter (·.actor = a)).map (·.seq)).Pairwise (· < ·) := by
      rw [hd.state.numbered a]; exact List.pairwise_lt_range'
    exact List.pairwise_map.mp hlt
  · refine (List.perm_ext_iff_of_nodup (hd.state.numbered.nodup.filter _)
      (hwf.nodup.filter _)).mpr fun e => ?_
    simp only [List.mem_filter, decide_eq_true_eq]
    refine and_congr_left fun hea => ⟨fun he => (hd.state.events e he).1, fun he => ?_⟩
    refine (mem_produced hwf hids hsup hd hall he).resolve_right fun h => ha ?_
    rw [← hea]; exact ((mem_seeds hsup e).mp h).2.2

end Exact

section Verdict

variable [DecidableEq τ] {sys : ReplaySystem τ α σ} {log : List CausalEvent} {out : ReplayOutcome}

theorem replayRun_ok [Counter] {r : Replayed} {d : Driver τ α σ} : sys.replayRun log = .ok (r, d) ↔
    replayLog log = .ok r ∧ sys.reexecute log r.timeline = .ok d := by
  unfold ReplaySystem.replayRun
  cases hr : replayLog log with
  | error e => simp
  | ok r' =>
    constructor
    · intro h
      obtain ⟨d', hd, hp⟩ := Except.bind_eq_ok.mp h
      cases hp
      exact ⟨rfl, hd⟩
    · rintro ⟨h, hd⟩
      cases h
      exact Except.bind_eq_ok.mpr ⟨d, hd, rfl⟩

theorem replay_of_run [Counter] {r : Replayed} {d : Driver τ α σ}
    (h : sys.replayRun log = .ok (r, d)) :
    sys.replay log = .ok ⟨r, d.state.divergences⟩ :=
  Except.bind_eq_ok.mpr ⟨(r, d), h, rfl⟩

/-- What a replay that returns has done. -/
theorem replay_ok [Counter] (h : sys.replay log = .ok out) :
    ∃ d, sys.replayRun log = .ok (out.replayed, d) ∧
    replayLog log = .ok out.replayed ∧ sys.reexecute log out.replayed.timeline = .ok d ∧
    out.divergences = d.state.divergences := by
  obtain ⟨⟨r, d⟩, hrun, hout⟩ := Except.bind_eq_ok.mp h
  cases hout
  obtain ⟨hlog, hd⟩ := replayRun_ok.mp hrun
  exact ⟨d, hrun, hlog, hd, rfl⟩

/-- **A faithful verdict means the recording was reproduced exactly.**  A rebuilt actor whose
calls differ from the recorded ones, or a message received twice, is reported. -/
theorem replay_exact (hids : ∀ e ∈ log, e.id = idOf e.actor e.seq) (hmids : ∀ e ∈ log, e.PlainMid)
    (hworld : "world" ∉ sys.actors) (hout : sys.replay log = .ok out) :
    ∃ d, sys.replayRun log = .ok (out.replayed, d) ∧
      (out.divergences = [] → Reproduces log d.state.journal) ∧
      (((∃ a ∈ sys.actors, (d.state.journal.events.filter (·.actor = a)).filterMap
            CausalEvent.action ≠ (worldLine log a).filterMap CausalEvent.action) ∨
          ∃ r ∈ log, ∃ r' ∈ log, r ≠ r' ∧ r.op = .recv ∧ r'.op = .recv ∧ r.msgId = r'.msgId) →
        out.divergences ≠ []) := by
  obtain ⟨d, hrun, hlog, hre, hdiv⟩ := replay_ok hout
  have hwf := (replayLog_ok_iff.mp ⟨_, hlog⟩).wellFormed
  have hperm := (timeline_spec hlog).1
  refine ⟨d, hrun, fun hnil => ?_, fun hdiff hnil => ?_⟩
  · obtain ⟨seeds, hsup, hd, hall⟩ := reexecute_faithful hre (hdiv ▸ hnil)
    exact hd.reproduces hwf hids (fun e he _ => hmids e he) hworld hperm hsup hall
  · obtain ⟨seeds, hsup, hd, hall⟩ := reexecute_faithful hre (hdiv ▸ hnil)
    have hrep := hd.reproduces hwf hids (fun e he _ => hmids e he) hworld hperm hsup hall
    rcases hdiff with ⟨a, ha, hne⟩ | ⟨r, hr, r', hr', hne, hop, hop', hmid⟩
    · refine hne (congrArg _ (produced_line hwf hids hsup hd hall ?_))
      rintro rfl
      exact hworld ha
    · -- both recvs consumed an envelope of one msg_id
      have hwalk : ∀ {q : CausalEvent}, q ∈ log → q.op = .recv →
          ∃ t ∈ d.state.journal.consumed, t.1 = q := fun hq hqop =>
        List.mem_map.mp (hrep.recvs.mem_iff.mpr (List.mem_filter.mpr ⟨hq, by simpa using hqop⟩))
      obtain ⟨t, ht, rfl⟩ := hwalk hr hop
      obtain ⟨t', ht', rfl⟩ := hwalk hr' hop'
      rw [(hrep.messages t ht).2, (hrep.messages t' ht').2, mid_inj] at hmid
      exact hne (congrArg Prod.fst (List.inj_on_of_nodup_map hrep.distinct ht ht' hmid))

/-- **What a faithful verdict says about routing.**  World emits take the origins by position and
leave later origins and all origin addresses unread; a handler's send went to the `dst` recorded
on the one emit of its msg_id; a recorded recv was handed to its own actor, which was rebuilt. -/
theorem replay_routes (hout : sys.replay log = .ok out) (hs : out.divergences = []) :
    ∃ d, sys.replayRun log = .ok (out.replayed, d) ∧
      (∀ (k : Nat) (we : CausalEvent),
        ((RecordedIndex.build log).emitsByActor "world")[k]? = some we → ∃ m o, we.parsedMid = some m ∧
          sys.origins[k]? = some o ∧ d.state.journal.seeded[k]? = some (we, ReplayState.originEnvelope we m o)) ∧
      (∀ env ∈ d.state.journal.sent, env.src ∈ sys.actors ∧ ∃ e ∈ log, e.op = .emit ∧
        Announced e env ∧ ∀ f ∈ log, f.op = .emit → f.msgId = mid env.msgId → f = e) ∧
      ∀ r ∈ log, r.op = .recv → r.actor ∈ sys.actors ∧
        ∃ env ∈ d.state.journal.stashed, (r, env) ∈ d.state.journal.consumed ∧
          r.parsedMid = some env.msgId ∧ ∃ e ∈ log, Receives r.actor e env := by
  obtain ⟨d, hrun, hlog, hre, hdiv⟩ := replay_ok hout
  have hwf := (replayLog_ok_iff.mp ⟨_, hlog⟩).wellFormed
  have hperm := (timeline_spec hlog).1
  obtain ⟨seeds, hsup, hd, -⟩ := reexecute_faithful hre (hdiv ▸ hs)
  refine ⟨d, hrun, fun k we hk => ?_, fun env henv => ?_, fun r hr hop => ?_⟩
  · obtain ⟨m, o, hm, ho, hp⟩ := hsup.get hk
    rw [Nat.zero_add] at ho
    exact ⟨m, o, hm, ho, by rw [hd.state.seeded]; exact hp⟩
  · obtain ⟨e, he, ha⟩ := announced_of_mem hd.state.routed.sent henv
    obtain ⟨hev, hop⟩ := List.mem_filter.mp he
    obtain ⟨helog, hact⟩ := hd.state.events e hev
    refine ⟨ha.actor ▸ hact, e, helog, by simpa using hop, ha, fun f hf hfop hfm => ?_⟩
    refine eq_of_sent hwf.emits hf helog (s := "m" ++ env.msgId.repr) ?_ ?_
    · rw [CausalEvent.sent, if_pos hfop, hfm]; rfl
    · rw [CausalEvent.sent, if_pos (by simpa using hop), ha.msgId]; rfl
  · have hwalk : r ∈ d.state.journal.consumed.map Prod.fst := by
      rw [hd.state.walked]
      exact List.mem_filter.mpr ⟨hperm.mem_iff.mpr hr, by simpa using hop⟩
    obtain ⟨t, ht, rfl⟩ := List.mem_map.mp hwalk
    obtain ⟨hm, hst, e, he, hrec⟩ := hd.state.routed.consumed t ht
    exact ⟨hd.state.rebuilt t ht, t.2, hst, ht, hm, e, (hd.state.events e he).1, hrec⟩

end Verdict

/-! ## A relay -/

theorem exists_faithful [DecidableEq τ] (sys : ReplaySystem τ α σ) (log : List CausalEvent)
    (h : (sys.replay log).toOption.map ReplayOutcome.isFaithful = some true) :
    ∃ out, sys.replay log = .ok out ∧ out.divergences = [] := by
  cases hr : sys.replay log with
  | error e => rw [hr] at h; cases h
  | ok out =>
    rw [hr] at h
    exact ⟨out, rfl, List.isEmpty_iff.mp (Option.some.inj h)⟩

/-- An actor that passes every number on, incremented, to the actor `next`. -/
def relay (next : ActorId) : Actor (Addr Unit) Unit Nat Unit where
  msgType := ()
  started s := (s, [])
  handle s x := (s, [.send ⟨next, ()⟩ (x + 1)])

/-- An actor that computes once for every message. -/
def sink : Actor (Addr Unit) Unit Nat Unit where
  msgType := ()
  started s := (s, [])
  handle s _ := (s, [.compute])

/-- A sink and a relay to `next`. -/
def relaySystem (next : ActorId) : ReplaySystem Unit Nat Unit :=
  (ReplaySystem.new.spawn "sink" ⟨sink, ()⟩).spawn "relay" ⟨relay next, ()⟩

/-- The five events of an origin that the relay passes on to `next` and the sink receives. -/
def relayLog (next : ActorId) : List CausalEvent :=
  let origin := (Stamps.zero.bump "world").envelope "world" 1 (⟨"relay", ()⟩ : Addr Unit) 1
  let r₁ := Stamps.zero.receive "relay" origin
  let r₂ := r₁.bump "relay"
  let relayed := r₂.envelope "relay" 2 (⟨next, ()⟩ : Addr Unit) 2
  let s₁ := Stamps.zero.receive "sink" relayed
  let s₂ := s₁.bump "sink"
  [emitEvent "world" 1 origin, recvEvent "relay" r₁.seq r₁.clock r₁.lamport.val origin,
    emitEvent "relay" r₂.seq relayed, recvEvent "sink" s₁.seq s₁.clock s₁.lamport.val relayed,
    computeEvent "sink" s₂.seq s₂.clock s₂.lamport.val]

theorem relayLog_plain (next : ActorId) : ∀ e ∈ relayLog next, e.PlainMid := by
  intro e he
  simp only [relayLog, List.mem_cons, List.not_mem_nil, or_false] at he
  rcases he with rfl | rfl | rfl | rfl | rfl
  · exact emitEvent_plain _ _ _
  · exact recvEvent_plain _ _ _ _ _
  · exact emitEvent_plain _ _ _
  · exact recvEvent_plain _ _ _ _ _
  · exact computeEvent_plain _ _ _ _

theorem replay_exact_relay : ∃ d : Driver Unit Nat Unit,
    Reproduces (relayLog "sink") d.state.journal := by
  obtain ⟨out, hout, hnil⟩ := exists_faithful
    ((relaySystem "sink").origin ⟨"relay", ()⟩ 1) (relayLog "sink") (by decide)
  obtain ⟨d, -, hrep, -⟩ := replay_exact (by decide) (relayLog_plain "sink") (by decide) hout
  exact ⟨d, hrep hnil⟩

theorem replay_routes_relay : ∃ (d : Driver Unit Nat Unit),
    ∀ r ∈ relayLog "sink", r.op = .recv → ∃ env ∈ d.state.journal.stashed,
      (r, env) ∈ d.state.journal.consumed := by
  obtain ⟨out, hout, hnil⟩ := exists_faithful
    ((relaySystem "sink").origin ⟨"relay", ()⟩ 1) (relayLog "sink") (by decide)
  obtain ⟨d, -, -, -, hrecv⟩ := replay_routes hout hnil
  refine ⟨d, fun r hr hop => ?_⟩
  obtain ⟨-, env, henv, hc, -⟩ := hrecv r hr hop
  exact ⟨env, henv, hc⟩

/-- Faithful verdicts that certify neither routing nor stimuli: a second origin goes unused, the
origin may be addressed to another actor, and in a log whose emit names another receiver than the
recv the message goes to the recv's actor. -/
theorem replay_routes_unchecked :
    (∃ out, (((relaySystem "sink").origin ⟨"relay", ()⟩ 1).origin ⟨"relay", ()⟩ 1).replay
        (relayLog "sink") = .ok out ∧ out.divergences = []) ∧
    (∃ out, ((relaySystem "sink").origin ⟨"sink", ()⟩ 1).replay (relayLog "sink") = .ok out ∧
        out.divergences = []) ∧
    (∃ out, ((relaySystem "elsewhere").origin ⟨"relay", ()⟩ 1).replay (relayLog "elsewhere") =
        .ok out ∧ out.divergences = []) ∧
    ((RecordedIndex.build (relayLog "sink")).emitsByActor "world").map (·.dst) =
      [some "relay"] ∧
    ∃ e ∈ relayLog "elsewhere", ∃ r ∈ relayLog "elsewhere", MessageOrder e r ∧
      e.dst = some "elsewhere" ∧ r.actor = "sink" := by
  refine ⟨exists_faithful _ _ (by decide), exists_faithful _ _ (by decide),
    exists_faithful _ _ (by decide), by decide, ?_⟩
  refine ⟨(relayLog "elsewhere")[2], by decide, (relayLog "elsewhere")[3], by decide,
    ⟨by decide, by decide, "m2", by decide, by decide⟩, by decide, by decide⟩

end Lichtung
