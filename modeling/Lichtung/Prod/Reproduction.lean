import Lichtung.Prod.Replay

/-!
# No false alarm

The log of a production run, in any order, is a script: the lines of its actors are complete once
every `started` has returned and no handler is running, and the recorded index holds them in order.
So a replay of the log with the same actors and the same origin finds no divergence.

Principal results: `Performed.script`, `Performed.canonical`, `Run.replayed` and `replay_faithful`.
-/

namespace Lichtung.Prod

open Transition CausalHistory

variable {ι τ α σ : Type} {sys : Topology ι τ α σ} {s : Config ι τ α σ}
  {ls : List (Label ι α)} {L : ι → Line ι τ α σ} {log : List CausalEvent}

/-- `started` has made its calls, and no handler is running. -/
def Pc.idle : Pc ι τ α → Prop
  | .waiting | .received _ | .notifying | .body _ [] => True
  | _ => False

/-- The origins of a run, as they are re-supplied. -/
def Label.origin (sys : Topology ι τ α σ) : Label ι α → Option (ActorId × Boxed τ α)
  | .sendExternal addr msg => some (sys.name addr, ⟨(sys.actor addr).msgType, msg⟩)
  | _ => none

/-! ## At most one origin -/

theorem eq_of_countP_le_one {β : Type} {p : β → Bool} {l : List β} (h : l.countP p ≤ 1) {a b : β}
    (ha : a ∈ l) (hb : b ∈ l) (hpa : p a = true) (hpb : p b = true) : a = b := by
  have hmem : ∀ {c}, c ∈ l → p c = true → c ∈ l.filter p := fun hc hp =>
    List.mem_filter.mpr ⟨hc, hp⟩
  have hlen : (l.filter p).length ≤ 1 := by rwa [← List.countP_eq_length_filter]
  have ha' := hmem ha hpa
  have hb' := hmem hb hpb
  match hl : l.filter p, hlen with
  | [c], _ =>
    rw [hl] at ha' hb'
    rw [List.mem_singleton.mp ha', List.mem_singleton.mp hb']
  | [], _ => rw [hl] at ha'; cases ha'

/-- One call of `send_external` builds one envelope for each msg_id. -/
theorem FromOrigin.unique (h1 : ls.countP Label.injects ≤ 1) {env env' : Envelope τ α}
    (h : FromOrigin sys ls env) (h' : FromOrigin sys ls env') (hm : env.msgId = env'.msgId) :
    env = env' := by
  obtain ⟨m, addr, msg, hl, rfl⟩ := h
  obtain ⟨m', addr', msg', hl', rfl⟩ := h'
  cases eq_of_countP_le_one h1 hl hl' rfl rfl
  cases (show m = m' from hm)
  rfl

/-- The one call is the first origin re-supplied. -/
theorem origins_head (h1 : ls.countP Label.injects ≤ 1) {addr : ι} {msg : α}
    (h : Label.sendExternal addr msg ∈ ls) : (ls.filterMap (Label.origin sys))[0]? =
      some (sys.name addr, ⟨(sys.actor addr).msgType, msg⟩) := by
  have hmem : (sys.name addr, (⟨(sys.actor addr).msgType, msg⟩ : Boxed τ α)) ∈
      ls.filterMap (Label.origin sys) := List.mem_filterMap.mpr ⟨_, h, rfl⟩
  cases hl : ls.filterMap (Label.origin sys) with
  | nil => rw [hl] at hmem; cases hmem
  | cons o os =>
    obtain ⟨l, hin, ho⟩ := List.mem_filterMap.mp (hl ▸ List.mem_cons_self .. :
      o ∈ ls.filterMap (Label.origin sys))
    cases l with
    | sendExternal addr' msg' =>
      cases eq_of_countP_le_one h1 h hin rfl rfl
      exact ho.symm
    | _ => cases ho

/-! ## The script of a log -/

/-- The `world` events of the log are the emit of one origin, or none. -/
theorem Performed.origin (hn : Named sys) (h : Performed sys ls s L)
    (hw : recording.count s.events "world" ≤ 1) :
    ∃ origin : Option (Envelope τ α), (∀ env ∈ origin, FromOrigin sys ls env) ∧
      s.events.filter (·.actor = "world") = origin.toList.map (emitEvent "world" 1) := by
  have hlen : (s.events.filter (·.actor = "world")).length ≤ 1 := by
    rw [← List.countP_eq_length_filter]; exact hw
  rcases hl : s.events.filter (·.actor = "world") with _ | ⟨e, _ | ⟨f, rest⟩⟩
  · exact ⟨none, (by simp), hl⟩
  · have hmem : e ∈ s.events.filter (·.actor = "world") := by rw [hl]; exact List.mem_singleton_self e
    obtain ⟨he, hactor⟩ := List.mem_filter.mp hmem
    rcases h.actors e he with ⟨i, hi⟩ | ⟨env, henv, rfl⟩
    · exact absurd (hi.symm.trans (by simpa using hactor)) (hn.not_world i)
    · exact ⟨some env, fun _ h => by cases h; exact henv, hl⟩
  · rw [hl] at hlen
    simp at hlen

section Script

variable {origin : Option (Envelope τ α)}
  (hworld : s.events.filter (·.actor = "world") = origin.toList.map (emitEvent "world" 1))

include hworld in
theorem mem_origin (env : Envelope τ α) (henv : env ∈ origin) :
    emitEvent "world" 1 env ∈ s.events := by
  have hmem : emitEvent "world" 1 env ∈ s.events.filter (·.actor = "world") := by
    rw [hworld]
    exact List.mem_map_of_mem (Option.mem_toList.mpr henv)
  exact List.mem_of_mem_filter hmem

theorem Played.mem_events (h : Played sys s L) {i : ι} {e : CausalEvent} :
    e ∈ (L i).events ↔ e ∈ s.events ∧ e.actor = sys.name i := by
  rw [h.events, List.mem_filter, decide_eq_true_eq]

include hworld in
/-- Every envelope sent is announced by a recorded emit, of its line or of `world`. -/
theorem Played.announced (h : Played sys s L) {env : Envelope τ α} (henv : SentBy L origin env) :
    ∃ e ∈ s.events, e.op = .emit ∧ e.msgId = mid env.msgId ∧
      ((∃ i, e.actor = sys.name i ∧ env ∈ (L i).sent) ∨ e.actor = "world" ∧ env ∈ origin) := by
  rcases henv with ⟨i, hi⟩ | horigin
  · obtain ⟨seq, he⟩ := Line.Path.consistent (h.path i) |>.emitted env hi
    exact ⟨_, (h.mem_events.mp he).1, rfl, rfl, .inl ⟨i, rfl, hi⟩⟩
  · exact ⟨_, mem_origin hworld env horigin, rfl, rfl, .inr ⟨rfl, horigin⟩⟩

/-- The emits of a line have distinct msg_ids. -/
theorem Played.sent_nodup (h : Played sys s L) [Fintype ι] (hi : Issued s) (i : ι) :
    ((L i).sent.map (·.msgId)).Nodup := by
  have hsub : ((L i).events.filter (·.op = .emit)).Sublist (s.events.filter (·.op = .emit)) := by
    rw [h.events i]
    exact List.filter_sublist.filter _
  have hnd : ((L i).sent.map fun env => mid env.msgId).Nodup := by
    rw [← (Line.Path.consistent (h.path i)).emits]
    exact (hsub.map _).nodup hi.emits_nodup
  have hcomp : (L i).sent.map (fun env => mid env.msgId) =
      ((L i).sent.map (·.msgId)).map mid := by rw [List.map_map]; rfl
  rw [hcomp] at hnd
  exact hnd.of_map

/-- The emits of one line of the log, by seq. -/
theorem emits_of_perm (hp : log.Perm s.events) {a : ActorId} {l : List CausalEvent}
    (hl : s.events.filter (·.actor = a) = l) (hlt : l.Pairwise fun e f => e.seq < f.seq) :
    (RecordedIndex.build log).emitsByActor a = l.filter (·.op = .emit) := by
  rw [RecordedIndex.build_emits]
  refine (KeyOrder.eq_insertionSort (hlt.filter _) ?_).symm
  rw [← hl, List.filter_filter]
  refine List.Perm.trans ?_ (hp.filter _).symm
  exact List.Perm.of_eq (List.filter_congr fun e _ => by simp)

variable [Fintype ι]

include hworld in
/-- **The log of an idle state is a script.** -/
theorem Performed.script (hn : Named sys) (h : Performed sys ls s L) (ha : Account sys s)
    (h1 : ls.countP Label.injects ≤ 1) (hfrom : ∀ env ∈ origin, FromOrigin sys ls env)
    (hids : (s.events.map (·.id)).Nodup) (hidle : ∀ i, (s.tasks i).pc.idle)
    (hm : s.msgId < 2 ^ 64) (hp : log.Perm s.events) : Script sys log L origin where
  path := h.played.path
  settled := by
    intro i
    have hpc := hidle i
    have hspawned : (s.tasks i).pc ≠ .spawned := by intro h; rw [h] at hpc; exact hpc
    rw [((h.played.task i).running hspawned).2.2]
    cases heq : (s.tasks i).pc with
    | body phase rest =>
      cases rest with
      | nil => rfl
      | cons => rw [heq] at hpc; exact hpc.elim
    | numbered | sending => rw [heq] at hpc; exact hpc.elim
    | _ => rfl
  recorded := fun i e he => RecordedIndex.build_byId ((hp.map _).nodup_iff.mpr hids)
    (hp.mem_iff.mpr (h.played.mem_events.mp he).1)
  emits := fun i => emits_of_perm hp (h.played.events i).symm
    (Line.Path.consistent (h.played.path i)).pairwise
  world := by
    have hlt : (origin.toList.map (emitEvent "world" 1)).Pairwise fun e f => e.seq < f.seq := by
      cases origin <;> simp
    rw [emits_of_perm hp hworld hlt]
    cases origin <;> rfl
  mids := by
    intro env henv
    obtain ⟨e, he, hop, hmid, -⟩ := h.played.announced hworld henv
    exact (ha.issued.le_of_emit he hop hmid).trans_lt hm
  distinct := by
    intro env env' henv henv' heq
    obtain ⟨e, he, hop, hmid, hline⟩ := h.played.announced hworld henv
    obtain ⟨e', he', hop', hmid', hline'⟩ := h.played.announced hworld henv'
    have hemit : ∀ {f : CausalEvent}, f ∈ s.events → f.op = .emit →
        f ∈ s.events.filter (·.op = .emit) := fun hf hfop =>
      List.mem_filter.mpr ⟨hf, by simpa using hfop⟩
    obtain rfl : e = e' := List.inj_on_of_nodup_map ha.issued.emits_nodup (hemit he hop)
      (hemit he' hop') (by rw [hmid, hmid', heq])
    rcases hline with ⟨i, hi, hsent⟩ | ⟨hi, horigin⟩ <;>
      rcases hline' with ⟨j, hj, hsent'⟩ | ⟨hj, horigin'⟩
    · obtain rfl : i = j := hn.injective (hi.symm.trans hj)
      exact List.inj_on_of_nodup_map (h.played.sent_nodup ha.issued i) hsent hsent' heq
    · exact absurd (hi.symm.trans hj) (hn.not_world i)
    · exact absurd (hj.symm.trans hi) (hn.not_world j)
    · exact Option.mem_unique horigin horigin'
  received := by
    intro i env henv
    rcases h.received i env henv with hsent | ⟨hsrc, hmem⟩
    · exact .inl hsent
    · -- the recorded `world` emit is that of the origin
      have hmem' : emitEvent "world" 1 env ∈ s.events.filter (·.actor = "world") :=
        List.mem_filter.mpr ⟨hmem, by simp [emitEvent]⟩
      rw [hworld] at hmem'
      obtain ⟨env', henv', heq⟩ := List.mem_map.mp hmem'
      have henv' := Option.mem_toList.mp henv'
      have hmid : env'.msgId = env.msgId := mid_inj.mp (congrArg CausalEvent.msgId heq)
      exact .inr (FromOrigin.unique h1 (hfrom env' henv') hsrc hmid ▸ henv')
  covers := by
    intro e he
    have he := hp.mem_iff.mp he
    rcases h.actors e he with ⟨i, hi⟩ | ⟨env, -, rfl⟩
    · exact .inl ⟨i, h.played.mem_events.mpr ⟨he, hi⟩⟩
    · have hmem : emitEvent "world" 1 env ∈ s.events.filter (·.actor = "world") :=
        List.mem_filter.mpr ⟨he, by simp [emitEvent]⟩
      rw [hworld] at hmem
      obtain ⟨env', henv', heq⟩ := List.mem_map.mp hmem
      exact .inr ⟨env', Option.mem_toList.mp henv', heq.symm⟩

end Script

/-! ## The timeline of a log -/

variable [Fintype ι]

theorem Performed.canonical (h : Performed sys ls s L) (ha : Account sys s)
    (hp : log.Perm s.events) {r : Replayed} (hr : replayLog log = .ok r) :
    Canonical sys log L r.timeline := by
  have hwf := (replayLog_ok_iff.mp ⟨r, hr⟩).wellFormed
  have hext := timeline_extends hr
  have hperm := hext.perm
  obtain ⟨lost, hl⟩ := ha.ledger
  refine ⟨hext.nodup hwf, fun e => hperm.mem_iff,
    fun i e he => hp.mem_iff.mpr (h.played.mem_events.mp he).1, fun i => ?_, hext.causes,
    fun q hq q' hq' hop hop' heq => ?_⟩
  · have hline := (Line.Path.consistent (h.played.path i)).pairwise.filter (·.op = .recv)
    refine KeyOrder.eq_of_perm ?_ (hline.imp fun hlt => hlt.le) ?_
    · -- along the timeline the seqs of one actor go up
      apply List.pairwise_filter.mpr
      refine (hext.seqs_lt hwf).imp fun {a b} hab hpa hpb => hab ?_
      simp only [decide_eq_true_eq] at hpa hpb
      exact hpa.2.trans hpb.2.symm
    · rw [h.played.events i, List.filter_filter]
      refine ((hperm.trans hp).filter _).trans (List.Perm.of_eq (List.filter_congr fun e _ => ?_))
      simp
  · have hrecv : ∀ {f : CausalEvent}, f ∈ log → f.op = .recv →
        f ∈ s.events.filter (·.op = .recv) := fun hf hfop =>
      List.mem_filter.mpr ⟨hp.mem_iff.mp hf, by simpa using hfop⟩
    exact List.inj_on_of_nodup_map (hl.recvs_nodup ha.issued) (hrecv hq hop) (hrecv hq' hop') heq

variable [DecidableEq ι] [DecidableEq τ]

/-- The rebuilt actors walk the log of an idle state without divergences. -/
theorem Run.replayed (hn : Named sys) (h : Run sys ls s) (h1 : ls.countP Label.injects ≤ 1)
    (hidle : ∀ i, (s.tasks i).pc.idle) (hm : s.msgId < 2 ^ 64) (hp : log.Perm s.events)
    {rs : ReplaySystem τ α σ} (hr : Rebuilds sys rs)
    (ho : rs.origins = ls.filterMap (Label.origin sys)) :
    ∃ r d, rs.replayRun log = .ok (r, d) ∧ d.state.divergences = [] := by
  have ha := h.account hn
  obtain ⟨L, hL⟩ := h.performed hn
  have hw : recording.count s.events "world" ≤ 1 := by
    have := h.origins hn
    omega
  have hacc := ha.accepted hw
  obtain ⟨origin, hfrom, hworld⟩ := hL.origin hn hw
  have hS := hL.script hworld hn ha h1 hfrom (ha.ids_nodup hacc.wellFormed.coords) hidle hm hp
  obtain ⟨r, hlog⟩ := replayLog_ok_iff.mpr (hacc.perm hp.symm)
  refine ⟨r, hS.replay hn hr (fun env henv => ?_) hlog (hL.canonical ha hp hlog)⟩
  obtain ⟨m, addr, msg, hl, rfl⟩ := hfrom env henv
  exact ⟨m, addr, msg, rfl, ho ▸ origins_head h1 hl⟩

/-- **Replay raises no false alarm.**  Take a run with at most one `send_external`, a state of it in
which every `started` has returned and no handler is running, and its log in any order.  The same
actors under the same names, given the same origin, replay it without divergences. -/
theorem replay_faithful (hn : Named sys) (h : Run sys ls s) (h1 : ls.countP Label.injects ≤ 1)
    (hidle : ∀ i, (s.tasks i).pc.idle) (hm : s.msgId < 2 ^ 64) (hp : log.Perm s.events)
    {rs : ReplaySystem τ α σ} (hr : Rebuilds sys rs)
    (ho : rs.origins = ls.filterMap (Label.origin sys)) :
    ∃ out, rs.replay log = .ok out ∧ out.divergences = [] := by
  obtain ⟨r, d, hrun, hnone⟩ := h.replayed hn h1 hidle hm hp hr ho
  exact ⟨_, replay_of_run hrun, hnone⟩

/-- A courier that passes every number on, and a sink. -/
def couriers : Topology Bool Unit Nat Unit where
  name courier := if courier then "courier" else "sink"
  actor courier := ⟨(), fun s => (s, []), fun s n => (s, if courier then [.send false n] else [])⟩
  init _ := ()

theorem couriers_named : Named couriers := ⟨by decide, by decide⟩

/-- An origin that the courier passes on, up to the receipt by the sink. -/
def deliveredRun : List (Label Bool Nat) :=
  [.task true, .task true, .task false, .task false, .sendExternal true 7, .external 0,
    .external 0, .external 0, .task true, .task true, .task true, .task true, .task true,
    .task true, .task true, .task false, .task false]

/-- The delivery, to the end of the sink's handler, and the shutdown after it. -/
def closedDelivery : List (Label Bool Nat) :=
  deliveredRun ++ [.task false, .task false, .runner, .runner, .abort true, .abort false,
    .cancel true, .cancel false, .runner]

/-- The log of the delivery, backwards. -/
theorem replay_faithful_couriers : ∃ s out, Run couriers deliveredRun s ∧ s.events.length = 4 ∧
    ((couriers.respawn [false, true]).origin (couriers.addr true) 7).replay s.events.reverse =
      .ok out ∧ out.divergences = [] := by
  obtain ⟨s, hrun, hlen, hidle, hm⟩ : ∃ s, Run couriers deliveredRun s ∧ s.events.length = 4 ∧
      (∀ i, (s.tasks i).pc.idle) ∧ s.msgId = 2 := by
    refine ⟨_, rfl, rfl, fun i => ?_, rfl⟩
    cases i <;> trivial
  have hr : Rebuilds couriers (couriers.respawn [false, true]) :=
    rebuilds_of_respawn couriers_named (by decide)
  obtain ⟨out, hout, hnone⟩ := replay_faithful couriers_named hrun (by decide) hidle (by omega)
    s.events.reverse_perm (hr.origin (couriers.addr true) 7) rfl
  exact ⟨s, out, hrun, hlen, hout, hnone⟩

end Lichtung.Prod
