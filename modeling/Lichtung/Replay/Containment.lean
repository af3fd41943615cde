import Lichtung.Replay.Walk

/-!
# Drift stays in its causal future

Two re-executions of one log.  The reference reports nothing.  The other one walks the events in any
order that respects the poset, on a system that may have drifted: a set of spared events, closed
under causes, has the same actors in both.  Step by step the other walk hands these actors the
envelopes of the reference, so they produce the spared events again, and no divergence names one.

Principal results: `Follows.recvStep` (a turn of the recv loop) and `Reference.contains` (the whole
re-execution).
-/

namespace Lichtung

variable {τ α σ : Type}

/-! ## The reference -/

/-- The envelopes handed to the actor `a`, with their recorded recvs. -/
def Driver.taken (d : Driver τ α σ) (a : ActorId) : List (CausalEvent × Envelope τ α) :=
  d.state.journal.consumed.filter (·.1.actor = a)

theorem Driver.mem_taken {d : Driver τ α σ} {a : ActorId} {t : CausalEvent × Envelope τ α} :
    t ∈ d.taken a ↔ t ∈ d.state.journal.consumed ∧ t.1.actor = a := by
  rw [Driver.taken, List.mem_filter, decide_eq_true_eq]

/-- What an actor was given after a complete `started` pass. -/
theorem Driver.inputs_rebuilt {sys : ReplaySystem τ α σ} {a : ActorId} (ha : a ∈ sys.actors)
    (d : Driver τ α σ) : Driver.inputs sys.actors.keys d.state.journal.consumed a =
      none :: (d.taken a).map fun t => some t.2 := by
  rw [Driver.inputs, if_pos (Std.ExtTreeMap.mem_keys.mpr ha)]
  rfl

variable [DecidableEq τ]

/-- A re-execution of `log` that reports nothing. -/
structure Reference (sys : ReplaySystem τ α σ) (log timeline : List CausalEvent)
    (seeds : List (CausalEvent × Envelope τ α)) (d : Driver τ α σ) : Prop where
  wellFormed : WellFormed log
  ids : ∀ e ∈ log, e.id = idOf e.actor e.seq
  mids : ∀ e ∈ log, e.op = .emit ∨ e.op = .recv → e.PlainMid
  world : "world" ∉ sys.actors
  order : Extends log timeline
  supplied : Supplied sys.origins 0 ((RecordedIndex.build log).emitsByActor "world") seeds
  walk : d.Walk sys log seeds sys.actors.keys timeline
  faithful : d.Faithful sys log seeds (timeline.filter (·.op = .recv))
  produced : ∀ e ∈ log, e.id ∈ d.state.produced
  silent : d.state.divergences = []

namespace Reference

variable {sys : ReplaySystem τ α σ} {log timeline : List CausalEvent}
  {seeds : List (CausalEvent × Envelope τ α)} {d : Driver τ α σ} {e f r : CausalEvent}

theorem of_reexecute (hwf : WellFormed log) (hids : ∀ e ∈ log, e.id = idOf e.actor e.seq)
    (hmids : ∀ e ∈ log, e.op = .emit ∨ e.op = .recv → e.PlainMid)
    (hworld : "world" ∉ sys.actors) (horder : Extends log timeline)
    (h : sys.reexecute log timeline = .ok d) (hs : d.state.divergences = []) :
    ∃ seeds, Reference sys log timeline seeds d := by
  obtain ⟨seeds, hsup, hfaith, hall⟩ := reexecute_faithful h hs
  obtain ⟨d', hwalk, rfl⟩ := reexecute_walk hsup (horder.nodup hwf) h
  have hcomplete : d'.state.complete log = d'.state := (complete_silent hs).1
  have hsame : ({ d' with state := d'.state.complete log } : Driver τ α σ) = d' := by
    rw [hcomplete]
  rw [hsame] at hfaith hall hs ⊢
  exact ⟨seeds, hwf, hids, hmids, hworld, horder, hsup, hwalk, hfaith, hall, hs⟩

section

variable (h : Reference sys log timeline seeds d)
include h

theorem eq_of_id (he : e ∈ log) (hf : f ∈ log) (hid : e.id = f.id) : e = f :=
  h.wellFormed.eq_of_id he hf (h.ids e he) (h.ids f hf) hid

theorem recorded (he : e ∈ log) : (RecordedIndex.build log).byId e.id = some e :=
  RecordedIndex.build_byId_of_unique he fun _ hf hid => h.eq_of_id hf he hid

theorem mem_log (he : e ∈ d.state.journal.events) : e ∈ log ∧ e.actor ∈ sys.actors :=
  h.faithful.state.events e he

theorem made (he : e ∈ log) : e ∈ d.state.journal.events ∨ e ∈ seeds.map Prod.fst :=
  mem_produced h.wellFormed h.ids h.supplied h.faithful h.produced he

theorem of_seeds (he : e ∈ seeds.map Prod.fst) : e ∈ log ∧ e.IsOrigin :=
  (mem_seeds h.supplied e).mp he

/-- Every recorded recv was served. -/
theorem served (hr : r ∈ log) (hop : r.op = .recv) :
    r.actor ∈ sys.actors ∧ ∃ env, (r, env) ∈ d.taken r.actor := by
  have hmem : r ∈ d.state.journal.consumed.map Prod.fst := by
    rw [h.faithful.state.walked]
    exact List.mem_filter.mpr ⟨h.order.perm.mem_iff.mpr hr, by simpa using hop⟩
  obtain ⟨t, ht, rfl⟩ := List.mem_map.mp hmem
  exact ⟨h.faithful.state.rebuilt t ht, t.2, Driver.mem_taken.mpr ⟨ht, rfl⟩⟩

theorem taken_recv {a : ActorId} {t : CausalEvent × Envelope τ α} (ht : t ∈ d.taken a) :
    t.1 ∈ log ∧ t.1.op = .recv ∧ t.1.actor = a ∧ t.1.parsedMid = some t.2.msgId ∧
      t.1.msgId = mid t.2.msgId := by
  obtain ⟨ht, hactor⟩ := Driver.mem_taken.mp ht
  have hmem : t.1 ∈ timeline.filter (·.op = .recv) := by
    rw [← h.faithful.state.walked]
    exact List.mem_map_of_mem ht
  obtain ⟨htime, hop⟩ := List.mem_filter.mp hmem
  have hlog := h.order.perm.mem_iff.mp htime
  have hm := h.walk.trail.matched t ht
  have hop : t.1.op = .recv := by simpa using hop
  exact ⟨hlog, hop, hactor, hm, (h.mids _ hlog (.inr hop)).mid_parsed hm⟩

/-- No two recorded recvs carry one msg_id. -/
theorem recv_unique (he : e ∈ log) (hf : f ∈ log) (hop : e.op = .recv) (hop' : f.op = .recv)
    (hm : e.msgId = f.msgId) : e = f := by
  obtain ⟨-, env, henv⟩ := h.served he hop
  obtain ⟨-, env', henv'⟩ := h.served hf hop'
  have heq : env.msgId = env'.msgId := by
    rw [(h.taken_recv henv).2.2.2.2, (h.taken_recv henv').2.2.2.2] at hm
    exact mid_inj.mp hm
  have hnd := consumed_nodup h.wellFormed h.mids h.world h.supplied h.faithful
  exact congrArg Prod.fst (List.inj_on_of_nodup_map hnd (Driver.mem_taken.mp henv).1
    (Driver.mem_taken.mp henv').1 heq)

/-- The recvs of an actor were served in the order of their seqs. -/
theorem taken_seqs (a : ActorId) : (d.taken a).Pairwise fun t u => t.1.seq < u.1.seq := by
  have hseqs : (d.state.journal.consumed.map Prod.fst).Pairwise
      fun e f => e.actor = f.actor → e.seq < f.seq := by
    rw [h.faithful.state.walked]
    exact (h.order.seqs_lt h.wellFormed).filter _
  have hseqs := (List.pairwise_map.mp hseqs).filter fun t => decide (t.1.actor = a)
  refine hseqs.imp_of_mem fun {t u} ht hu htu => htu ?_
  obtain ⟨-, -, hta, -⟩ := h.taken_recv ht
  obtain ⟨-, -, hua, -⟩ := h.taken_recv hu
  exact hta.trans hua.symm

theorem seeds_nodup : (seeds.map Prod.fst).Nodup := by
  rw [h.supplied.map_fst]
  exact RecordedIndex.build_emits_nodup h.wellFormed.nodup _

theorem stashed_inj {env env' : Envelope τ α} (henv : env ∈ d.state.journal.stashed)
    (henv' : env' ∈ d.state.journal.stashed) (hm : env.msgId = env'.msgId) : env = env' :=
  List.inj_on_of_nodup_map
    (stashed_nodup h.wellFormed h.mids h.world h.supplied h.faithful) henv henv' hm

end

end Reference

/-- A filter that keeps whatever comes before a kept element takes the first ones. -/
theorem filter_isPrefix {β : Type} {p : β → Bool} {R : β → β → Prop} : ∀ {l : List β},
    l.Pairwise R → (∀ x ∈ l, ∀ y ∈ l, R x y → p y = true → p x = true) → l.filter p <+: l
  | [], _, _ => List.prefix_rfl
  | x :: l, hR, hp => by
    obtain ⟨hx, hR⟩ := List.pairwise_cons.mp hR
    by_cases hpx : p x = true
    · rw [List.filter_cons_of_pos hpx]
      refine List.cons_prefix_cons.mpr ⟨rfl, filter_isPrefix hR fun y hy z hz => ?_⟩
      exact hp y (List.mem_cons_of_mem _ hy) z (List.mem_cons_of_mem _ hz)
    · have hnone : l.filter p = [] := List.filter_eq_nil_iff.mpr fun y hy hpy =>
        hpx (hp x (List.mem_cons_self ..) y (List.mem_cons_of_mem _ hy) (hx y hy) hpy)
      rw [List.filter_cons_of_neg hpx, hnone]
      exact List.nil_prefix

/-! ## The other walk -/

/-- The events `clean` spares: their causes are spared, and their actors are rebuilt as in the
reference. -/
structure Spared (sys sys' : ReplaySystem τ α σ) (log : List CausalEvent)
    (clean : CausalEvent → Prop) : Prop where
  agree : ∀ e ∈ log, clean e → sys'.actors[e.actor]? = sys.actors[e.actor]?
  causes : ∀ e ∈ log, clean e → ∀ f ∈ log, ProgramOrder f e ∨ Paired f e → clean f

omit [DecidableEq τ] in
theorem Spared.rebuilt_iff {sys sys' : ReplaySystem τ α σ} {log : List CausalEvent}
    {clean : CausalEvent → Prop} (hsp : Spared sys sys' log clean) {e : CausalEvent} (he : e ∈ log)
    (hclean : clean e) : e.actor ∈ sys'.actors ↔ e.actor ∈ sys.actors := by
  rw [Std.ExtTreeMap.mem_iff_isSome_getElem?, Std.ExtTreeMap.mem_iff_isSome_getElem?,
    hsp.agree e he hclean]

/-- The walk `d'` of `done` has handed every actor the spared envelopes of the reference `d`, in
order and before any others. -/
def Follows (d d' : Driver τ α σ) (clean : CausalEvent → Prop) (done : List CausalEvent) : Prop :=
  ∀ a xs, xs <+: d.taken a → (∀ t ∈ xs, clean t.1 ∧ t.1 ∈ done) → xs <+: d'.taken a

section Other

variable {sys sys' : ReplaySystem τ α σ} {log timeline done todo : List CausalEvent}
  {seeds : List (CausalEvent × Envelope τ α)} {d d' d'' : Driver τ α σ}
  {clean : CausalEvent → Prop} {e f r ev : CausalEvent}

/-- What one actor has done in the reference on a part of its envelopes, up to the recv of the next
one. -/
theorem Reference.split (h : Reference sys log timeline seeds d) {a : ActorId} {t : TypedActor τ α σ}
    (ht : sys.actors[a]? = some t) {xs ys : List (CausalEvent × Envelope τ α)}
    (hxs : d.taken a = xs ++ ys) : ∃ l : Local τ α σ,
      Local.run a (none :: xs.map fun t => some t.2) (.fresh (.build log) a t) = some l ∧
      l.Consistent (.build log) a ∧
      l.out.events <+: d.state.journal.events.filter (·.actor = a) ∧
      l.out.sent <+: d.state.journal.sent.filter (·.src = a) ∧
      ∀ e ∈ d.state.journal.events, e.actor = a → e ∉ l.out.events →
        ∃ u ys', ys = u :: ys' ∧ (u.1 = e ∨ ProgramOrder u.1 e) := by
  have ha : a ∈ sys.actors := (getElem_of_getElem? ht).1
  obtain ⟨l₁, ⟨t', ht', hrun⟩, hshows⟩ := h.walk.locals a ha
  obtain rfl : t = t' := Option.some.inj (ht.symm.trans ht')
  rw [Driver.inputs_rebuilt ha, hxs, List.map_append, ← List.cons_append, Local.run_append] at hrun
  obtain ⟨l, hl, hrest⟩ := Option.bind_eq_some_iff.mp hrun
  have hcons : l.Consistent (.build log) a := Local.run_consistent (.fresh _ a t) hl
  obtain ⟨hev, hsent⟩ := Local.run_grows hcons hrest
  rw [hshows.events] at hev
  rw [hshows.sent] at hsent
  refine ⟨l, hl, hcons, hev, hsent, fun e he hea hnot => ?_⟩
  cases ys with
  | nil =>
    cases hrest
    exact absurd (hshows.events ▸ List.mem_filter.mpr ⟨he, by simpa using hea⟩) hnot
  | cons u ys' =>
    refine ⟨u, ys', rfl, ?_⟩
    obtain ⟨l₂, h2, h3⟩ := Option.bind_eq_some_iff.mp hrest
    obtain ⟨es, envs, -, hout, hcons₂⟩ := Local.take_outcome hcons h2
    obtain ⟨⟨more, hmore⟩, -⟩ := Local.run_grows hcons₂ h3
    -- the recv of the next envelope is the recorded one
    obtain ⟨q, hq, hqr⟩ : ∃ q, l.recvOf a (some u.2) = [q] ∧ Receives a q u.2 :=
      ⟨_, rfl, rfl, rfl, rfl, rfl, rfl⟩
    have hlist : d.state.journal.events.filter (·.actor = a) = l.out.events ++ q :: (es ++ more) := by
      rw [← hshows.events, ← hmore, hout, hq]
      simp
    have hqmem : q ∈ d.state.journal.events := by
      refine List.mem_of_mem_filter (p := fun e => decide (e.actor = a)) ?_
      rw [hlist]
      simp
    obtain ⟨hulog, huop, hua, -, humid⟩ := h.taken_recv (a := a) (t := u) (by rw [hxs]; simp)
    have hqu : q = u.1 := h.recv_unique (h.mem_log hqmem).1 hulog hqr.op huop (by rw [hqr.msgId, humid])
    have hseq : (d.state.journal.events.filter (·.actor = a)).Pairwise fun e f => e.seq < f.seq := by
      rw [← List.pairwise_map (f := CausalEvent.seq) (R := (· < ·)), h.faithful.state.numbered a]
      exact List.pairwise_lt_range'
    have hmem : e ∈ l.out.events ++ q :: (es ++ more) := by
      rw [← hlist]
      exact List.mem_filter.mpr ⟨he, by simpa using hea⟩
    rw [hlist] at hseq
    rcases List.mem_append.mp hmem with hold | hnew
    · exact absurd hold hnot
    · rcases List.mem_cons.mp hnew with rfl | hlater
      · exact .inl hqu.symm
      · have hlt := List.rel_of_pairwise_cons (List.pairwise_append.mp hseq).2.1 hlater
        exact .inr ⟨hua.trans hea.symm, hqu ▸ hlt⟩

/-- An actor that was handed at least the envelopes `xs` has done at least this much. -/
theorem Driver.Walk.grows (hw : d'.Walk sys' log seeds sys'.actors.keys done) {a : ActorId}
    {t : TypedActor τ α σ} (ht : sys'.actors[a]? = some t)
    {xs : List (CausalEvent × Envelope τ α)} (hxs : xs <+: d'.taken a) {l : Local τ α σ}
    (hl : Local.run a (none :: xs.map fun t => some t.2) (.fresh (.build log) a t) = some l) :
    l.out.events <+: d'.state.journal.events.filter (·.actor = a) ∧
      l.out.sent <+: d'.state.journal.sent.filter (·.src = a) := by
  have ha : a ∈ sys'.actors := (getElem_of_getElem? ht).1
  obtain ⟨l', ⟨t', ht', hrun⟩, hshows⟩ := hw.locals a ha
  obtain rfl : t = t' := Option.some.inj (ht.symm.trans ht')
  obtain ⟨ys, hys⟩ := hxs
  rw [Driver.inputs_rebuilt ha, ← hys, List.map_append, ← List.cons_append, Local.run_append, hl]
    at hrun
  have hgrows := Local.run_grows (Local.run_consistent (.fresh _ a t) hl) hrun
  rwa [hshows.events, hshows.sent] at hgrows

/-- A spared event whose recvs were walked is produced again, with its envelope. -/
theorem Follows.remade (hf : Follows d d' clean done) (h : Reference sys log timeline seeds d)
    (hsp : Spared sys sys' log clean) (hw : d'.Walk sys' log seeds sys'.actors.keys done)
    (he : e ∈ d.state.journal.events) (hclean : clean e)
    (hdone : ∀ f ∈ log, f.op = .recv → f = e ∨ ProgramOrder f e → f ∈ done) :
    e ∈ d'.state.journal.events ∧
      (e.op = .emit → ∃ env ∈ d'.state.journal.sent, Announced e env ∧
        env ∈ d.state.journal.sent) := by
  classical
  obtain ⟨helog, ha⟩ := h.mem_log he
  obtain ⟨t, ht⟩ : ∃ t, sys.actors[e.actor]? = some t :=
    ⟨_, Std.ExtTreeMap.getElem?_eq_some_getElem ha⟩
  obtain ⟨xs, hxs⟩ : ∃ xs, xs = (d.taken e.actor).takeWhile
      fun t => decide (clean t.1 ∧ t.1 ∈ done) := ⟨_, rfl⟩
  obtain ⟨ys, hys⟩ : ∃ ys, ys = (d.taken e.actor).dropWhile
      fun t => decide (clean t.1 ∧ t.1 ∈ done) := ⟨_, rfl⟩
  have hsplit : d.taken e.actor = xs ++ ys := by rw [hxs, hys, List.takeWhile_append_dropWhile]
  obtain ⟨l, hl, hcons, hev, hsent, hnext⟩ := h.split ht hsplit
  have hmem : e ∈ l.out.events := by
    by_contra hnot
    obtain ⟨u, ys', rfl, hu⟩ := hnext e he rfl hnot
    -- the next recv precedes `e`, so it is spared and was walked
    obtain ⟨hulog, huop, -⟩ := h.taken_recv (a := e.actor) (t := u) (by rw [hsplit]; simp)
    have huclean : clean u.1 := by
      rcases hu with hu | hu
      · rwa [hu]
      · exact hsp.causes e helog hclean _ hulog (.inl hu)
    have hfail := List.head?_dropWhile_not
      (fun t : CausalEvent × Envelope τ α => decide (clean t.1 ∧ t.1 ∈ done)) (d.taken e.actor)
    rw [← hys] at hfail
    simp [huclean, hdone _ hulog huop hu] at hfail
  have hxs' : xs <+: d'.taken e.actor := by
    refine hf _ xs ⟨ys, hsplit.symm⟩ fun t ht => ?_
    rw [hxs] at ht
    simpa using List.mem_takeWhile_imp ht
  obtain ⟨hev', hsent'⟩ :=
    hw.grows ((hsp.agree e helog hclean).trans ht) hxs' hl
  refine ⟨List.mem_of_mem_filter (hev'.subset hmem), fun hop => ?_⟩
  obtain ⟨env, henv, ha⟩ := announces_of_mem hcons.outcome.announced
    (List.mem_filter.mpr ⟨hmem, by simpa using hop⟩)
  exact ⟨env, List.mem_of_mem_filter (hsent'.subset henv), ha,
    List.mem_of_mem_filter (hsent.subset henv)⟩

/-- The recvs of an actor that were walked come first. -/
theorem Reference.walked_first (h : Reference sys log timeline seeds d)
    (horder : Extends log (done ++ todo)) (a : ActorId) :
    (d.taken a).filter (fun t => decide (t.1 ∈ done)) <+: d.taken a := by
  refine filter_isPrefix (h.taken_seqs a) fun t ht u hu hlt hdone => ?_
  obtain ⟨htlog, -, hta, -⟩ := h.taken_recv ht
  obtain ⟨-, -, hua, -⟩ := h.taken_recv hu
  rw [decide_eq_true_eq] at hdone ⊢
  exact horder.closed hdone htlog (.inl ⟨hta.trans hua.symm, hlt⟩)

/-- An actor all of whose walked recvs are spared has been handed these envelopes and no others. -/
theorem Follows.exact (hf : Follows d d' clean done) (h : Reference sys log timeline seeds d)
    (hw : d'.Walk sys' log seeds sys'.actors.keys done) (horder : Extends log (done ++ todo))
    {a : ActorId} (hall : ∀ r ∈ done, r.op = .recv → r.actor = a → clean r) :
    d'.taken a = (d.taken a).filter fun t => decide (t.1 ∈ done) := by
  obtain ⟨xs, hxs⟩ : ∃ xs, xs = (d.taken a).filter fun t => decide (t.1 ∈ done) := ⟨_, rfl⟩
  have hmem : ∀ t, t ∈ xs ↔ t ∈ d.taken a ∧ t.1 ∈ done := fun t => by
    rw [hxs, List.mem_filter, decide_eq_true_eq]
  rw [← hxs]
  have hpre : xs <+: d'.taken a := by
    refine hf a xs (hxs ▸ h.walked_first horder a) fun t ht => ?_
    obtain ⟨htaken, hwalked⟩ := (hmem t).mp ht
    obtain ⟨-, hop, hactor, -⟩ := h.taken_recv htaken
    exact ⟨hall t.1 hwalked hop hactor, hwalked⟩
  have hnd : ((d'.taken a).map Prod.fst).Nodup := by
    have hsub : ((d'.taken a).map Prod.fst).Sublist done :=
      ((List.filter_sublist.map _).trans hw.trail.walked).trans List.filter_sublist
    exact hsub.nodup (List.nodup_append'.mp (horder.nodup h.wellFormed)).1
  have hsubset : (d'.taken a).map Prod.fst ⊆ xs.map Prod.fst := by
    intro r hr
    obtain ⟨t, ht, rfl⟩ := List.mem_map.mp hr
    obtain ⟨htc, hta⟩ := Driver.mem_taken.mp ht
    obtain ⟨hwalked, hop⟩ :=
      List.mem_filter.mp (hw.trail.walked.subset (List.mem_map_of_mem htc))
    obtain ⟨-, env, henv⟩ := h.served (horder.mem_of_done hwalked) (by simpa using hop)
    rw [hta] at henv
    exact List.mem_map.mpr ⟨_, (hmem _).mpr ⟨henv, hwalked⟩, rfl⟩
  have hlen := (hnd.subperm hsubset).length_le
  rw [List.length_map, List.length_map] at hlen
  exact (hpre.eq_of_length_le hlen).symm

/-- No sentinel handed out for an extra send is the msg_id of a recorded recv. -/
def Unclashed (sys : ReplaySystem τ α σ) (log : List CausalEvent) (s : ReplayState τ α) : Prop :=
  ∀ a ∈ sys.actors, ∀ j < s.sendCount a, OverSend (.build log) a j →
    ∀ r ∈ log, r.op = .recv → r.parsedMid ≠ some ((RecordedIndex.build log).sendMid a j)

/-- An envelope under the msg_id of a recv is a seed, or was sent with the number of a recorded
emit. -/
theorem Reference.source (h : Reference sys log timeline seeds d)
    (hw : d'.Walk sys' log seeds sys'.actors.keys done) (hno : Unclashed sys' log d'.state)
    {env : Envelope τ α} (henv : env ∈ d'.state.journal.stashed) (hr : r ∈ log) (hrop : r.op = .recv)
    (hm : r.parsedMid = some env.msgId) : ∃ e ∈ log, e.op = .emit ∧ e.parsedMid = some env.msgId ∧
      ((e, env) ∈ seeds ∨ env.src ∈ sys'.actors ∧ ∃ i : Nat,
        ((RecordedIndex.build log).emitsByActor env.src)[i]? = some e ∧
        (d'.state.journal.sent.filter (·.src = env.src))[i]? = some env) := by
  rw [Journal.stashed, hw.trail.seeded] at henv
  rcases List.mem_append.mp henv with henv | henv
  · obtain ⟨p, hp, rfl⟩ := List.mem_map.mp henv
    obtain ⟨helog, hop, -⟩ := h.of_seeds (List.mem_map_of_mem hp)
    exact ⟨p.1, helog, hop, (h.supplied.emit p hp).1, .inl hp⟩
  · have hsrc := hw.trail.senders env henv
    obtain ⟨l, hran, hshows⟩ := hw.locals env.src hsrc
    have hcons := hran.consistent
    have hmem : env ∈ d'.state.journal.sent.filter (·.src = env.src) :=
      List.mem_filter.mpr ⟨henv, by simp⟩
    obtain ⟨i, hi⟩ := List.getElem?_of_mem hmem
    have hmid : env.msgId = _ := hcons.sentMids i env (hshows.sent ▸ hi)
    have hlt : i < d'.state.sendCount env.src := by
      rw [← hshows.sends, hcons.sends, hshows.sent]
      exact (List.getElem?_eq_some_iff.mp hi).1
    cases hrec : ((RecordedIndex.build log).emitsByActor env.src)[i]?.bind
      CausalEvent.parsedMid with
    | none => exact absurd (hmid ▸ hm) (hno env.src hsrc i hlt hrec r hr hrop)
    | some m =>
      obtain ⟨e, he, hem⟩ := Option.bind_eq_some_iff.mp hrec
      obtain ⟨helog, hop, -⟩ := RecordedIndex.mem_build_emits.mp (List.mem_of_getElem? he)
      rw [RecordedIndex.sendMid, hrec] at hmid
      exact ⟨e, helog, hop, by rw [hem, hmid]; rfl, .inr ⟨hsrc, i, he, hi⟩⟩

/-- Under the msg_id of a recv there is one envelope at most. -/
theorem Reference.alone (h : Reference sys log timeline seeds d) (hworld : "world" ∉ sys'.actors)
    (hw : d'.Walk sys' log seeds sys'.actors.keys done) (hno : Unclashed sys' log d'.state)
    {env env' : Envelope τ α} (henv : env ∈ d'.state.journal.stashed)
    (henv' : env' ∈ d'.state.journal.stashed) (hr : r ∈ log) (hrop : r.op = .recv)
    (hm : r.parsedMid = some env.msgId) (heq : env'.msgId = env.msgId) : env' = env := by
  obtain ⟨e, he, hop, hem, hfrom⟩ := h.source hw hno henv hr hrop hm
  obtain ⟨e', he', hop', hem', hfrom'⟩ := h.source hw hno henv' hr hrop (by rw [heq, hm])
  -- both carry the msg_id of one recorded emit
  obtain rfl : e = e' := by
    have hs := (h.mids e he (.inl hop)).mid_parsed hem
    have hs' := (h.mids e' he' (.inl hop')).mid_parsed hem'
    rw [heq] at hs'
    exact eq_of_sent h.wellFormed.emits he he' (CausalEvent.sent_eq_some.mpr ⟨hop, hs⟩)
      (CausalEvent.sent_eq_some.mpr ⟨hop', hs'⟩)
  have hseed : ∀ {x : Envelope τ α}, (e, x) ∈ seeds → e.actor = "world" := fun hx =>
    (h.of_seeds (List.mem_map_of_mem hx)).2.2
  have hsent : ∀ {x : Envelope τ α} {i : Nat},
      ((RecordedIndex.build log).emitsByActor x.src)[i]? = some e → e.actor = x.src := fun hx =>
    (RecordedIndex.mem_build_emits.mp (List.mem_of_getElem? hx)).2.2
  rcases hfrom with hseeds | ⟨hsrc, i, hi, hx⟩ <;> rcases hfrom' with hseeds' | ⟨hsrc', j, hj, hx'⟩
  · exact (Prod.mk.inj (List.inj_on_of_nodup_map h.seeds_nodup hseeds' hseeds rfl)).2
  · rw [← hsent hj, hseed hseeds] at hsrc'
    exact absurd hsrc' hworld
  · rw [← hsent hi, hseed hseeds'] at hsrc
    exact absurd hsrc hworld
  · have hsame : env.src = env'.src := (hsent hi).symm.trans (hsent hj)
    rw [← hsame] at hj hx'
    have hnd := RecordedIndex.build_emits_nodup h.wellFormed.nodup env.src
    obtain ⟨hlen, -⟩ := List.getElem?_eq_some_iff.mp hi
    obtain rfl : i = j := (List.getElem?_inj hlen hnd).mp (hi.trans hj.symm)
    exact Option.some.inj (hx'.symm.trans hx)

/-- The actor is rebuilt as in the reference, and all it has recorded is spared. -/
def Untouched (sys sys' : ReplaySystem τ α σ) (log : List CausalEvent)
    (clean : CausalEvent → Prop) (a : ActorId) : Prop :=
  sys'.actors[a]? = sys.actors[a]? ∧ ∀ e ∈ log, e.actor = a → clean e

/-- Every msg_id of a recorded recv is below the sentinels that the sends of `a` have drawn, if
any. -/
def Below (log : List CausalEvent) (s : ReplayState τ α) (a : ActorId) : Prop :=
  ∀ j < s.sendCount a, OverSend (.build log) a j → ∀ r ∈ log, r.op = .recv →
    ∀ m, r.parsedMid = some m → m < (RecordedIndex.build log).sendMid a j

/-- An untouched actor has sent no more than in the reference, so it draws no sentinel. -/
theorem Follows.unclashed (hf : Follows d d' clean done) (h : Reference sys log timeline seeds d)
    (hw : d'.Walk sys' log seeds sys'.actors.keys done) (horder : Extends log (done ++ todo))
    (hbelow : ∀ a ∈ sys'.actors, Untouched sys sys' log clean a ∨ Below log d'.state a) :
    Unclashed sys' log d'.state := by
  intro a ha j hj hover r hr hrop hm
  rcases hbelow a ha with ⟨hagree, hclean⟩ | hlow
  · obtain ⟨l', ⟨t, ht, hrun⟩, hshows⟩ := hw.locals a ha
    have htaken := hf.exact h hw horder (a := a) fun r hr _ hra =>
      hclean r (horder.mem_of_done hr) hra
    obtain ⟨ys, hys⟩ := h.walked_first horder a
    obtain ⟨l, hl, hcons, -, hsent, -⟩ := h.split (hagree ▸ ht) hys.symm
    rw [Driver.inputs_rebuilt ha, htaken] at hrun
    obtain rfl : l = l' := Option.some.inj (hl.symm.trans hrun)
    obtain ⟨l₁, hran₁, hshows₁⟩ := h.walk.locals a (getElem_of_getElem? (hagree ▸ ht)).1
    have hcount : d'.state.sendCount a ≤ d.state.sendCount a := by
      rw [← hshows.sends, ← hshows₁.sends, hcons.sends, hran₁.consistent.sends, hshows₁.sent]
      exact hsent.length_le
    exact h.walk.trail.reported a j (hj.trans_le hcount) hover h.silent
  · exact Nat.lt_irrefl _ (hlow j hj hover r hr hrop _ hm)

/-- The envelope of a spared recv is there when the other walk comes to it. -/
theorem Follows.awaited (hf : Follows d d' clean done) (h : Reference sys log timeline seeds d)
    (hsp : Spared sys sys' log clean) (hworld : "world" ∉ sys'.actors)
    (hw : d'.Walk sys' log seeds sys'.actors.keys done)
    (horder : Extends log (done ++ ev :: todo)) (hno : Unclashed sys' log d'.state)
    (hop : ev.op = .recv) (hclean : clean ev) : ∃ env, (ev, env) ∈ d.taken ev.actor ∧
      ev.parsedMid = some env.msgId ∧ d'.state.pending env.msgId = some env := by
  have hev : ev ∈ log := horder.perm.mem_iff.mp (by simp)
  obtain ⟨-, env, henv⟩ := h.served hev hop
  obtain ⟨-, -, -, hparsed, hmid⟩ := h.taken_recv henv
  refine ⟨env, henv, hparsed, ?_⟩
  obtain ⟨-, hst, -⟩ := h.faithful.state.routed.consumed _ (Driver.mem_taken.mp henv).1
  have hst' : env ∈ d'.state.journal.stashed := by
    rcases List.mem_append.mp hst with hseed | hsent
    · rw [h.walk.trail.seeded] at hseed
      rw [Journal.stashed, hw.trail.seeded]
      exact List.mem_append_left _ hseed
    · -- the emit precedes the recv, so it is spared and its recvs were walked
      obtain ⟨e, he, ha⟩ := announced_of_mem h.faithful.state.routed.sent hsent
      obtain ⟨he, heop⟩ := List.mem_filter.mp he
      have heop : e.op = .emit := by simpa using heop
      have hlog := (h.mem_log he).1
      have hpaired : Paired e ev := ⟨_, CausalEvent.sent_eq_some.mpr ⟨heop, ha.msgId⟩,
        CausalEvent.wanted_eq_some.mpr ⟨hop, by rw [hmid]; rfl⟩⟩
      have hedone := horder.cause hlog (.inr hpaired)
      obtain ⟨-, hmade⟩ := hf.remade h hsp hw he (hsp.causes ev hev hclean e hlog (.inr hpaired))
        fun f hflog hfop hfe => by
          rcases hfe with rfl | hfe
          · rw [hfop] at heop
            cases heop
          · exact horder.closed hedone hflog (.inl hfe)
      obtain ⟨env', hsent', ha', href⟩ := hmade heop
      have heq : env'.msgId = env.msgId := mid_inj.mp (ha'.msgId.symm.trans ha.msgId)
      obtain rfl := h.stashed_inj (List.mem_append_right _ href) hst heq
      exact List.mem_append_right _ hsent'
  refine (hw.trail.kept.kept env hst' fun env' h' heq =>
    h.alone hworld hw hno hst' h' hev hop hparsed heq).resolve_right fun htaken => ?_
  obtain ⟨t, ht, rfl⟩ := List.mem_map.mp htaken
  obtain ⟨hwalked, htop⟩ := List.mem_filter.mp (hw.trail.walked.subset (List.mem_map_of_mem ht))
  have htlog : t.1 ∈ log := horder.mem_of_done hwalked
  have htop : t.1.op = .recv := by simpa using htop
  have htm := (h.mids _ htlog (.inr htop)).mid_parsed (hw.trail.matched t ht)
  have heq := h.recv_unique htlog hev htop hop (htm.trans hmid.symm)
  exact horder.not_mem_done h.wellFormed (heq ▸ hwalked)

/-- The walked recvs after one more event. -/
theorem Reference.walked_snoc (h : Reference sys log timeline seeds d)
    (horder : Extends log (done ++ ev :: todo)) {env : Envelope τ α}
    (henv : (ev, env) ∈ d.taken ev.actor) :
    (d.taken ev.actor).filter (fun t => decide (t.1 ∈ done ++ [ev])) =
      (d.taken ev.actor).filter (fun t => decide (t.1 ∈ done)) ++ [(ev, env)] := by
  have hnew : ev ∉ done := horder.not_mem_done h.wellFormed
  obtain ⟨hevlog, -⟩ := h.taken_recv henv
  obtain ⟨pre, post, hsplit⟩ := List.append_of_mem henv
  have hseqs := h.taken_seqs ev.actor
  rw [hsplit] at hseqs
  have hactor : ∀ t ∈ d.taken ev.actor, t.1 ∈ log ∧ t.1.actor = ev.actor := fun t ht =>
    ⟨(h.taken_recv ht).1, (h.taken_recv ht).2.2.1⟩
  have hpre : ∀ t ∈ pre, t.1 ∈ done := by
    intro t ht
    have hlt := (List.pairwise_append.mp hseqs).2.2 t ht _ (List.mem_cons_self ..)
    obtain ⟨htlog, hta⟩ := hactor t (by rw [hsplit]; simp [ht])
    exact horder.cause htlog (.inl ⟨hta, hlt⟩)
  have hpost : ∀ t ∈ post, t.1 ∉ done ∧ t.1 ≠ ev := by
    intro t ht
    have hlt : ev.seq < t.1.seq :=
      List.rel_of_pairwise_cons (List.pairwise_append.mp hseqs).2.1 ht
    obtain ⟨-, hta⟩ := hactor t (by rw [hsplit]; simp [ht])
    refine ⟨fun hdone => hnew (horder.closed hdone hevlog (.inl ⟨hta.symm, hlt⟩)), fun heq => ?_⟩
    rw [heq] at hlt
    exact Nat.lt_irrefl _ hlt
  have hpreL : pre.filter (fun t => decide (t.1 ∈ done)) = pre :=
    List.filter_eq_self.mpr fun t ht => by simpa using hpre t ht
  have hpreL' : pre.filter (fun t => decide (t.1 ∈ done ++ [ev])) = pre :=
    List.filter_eq_self.mpr fun t ht => by simp [hpre t ht]
  have hpostL : post.filter (fun t => decide (t.1 ∈ done)) = [] :=
    List.filter_eq_nil_iff.mpr fun t ht => by simpa using (hpost t ht).1
  have hpostL' : post.filter (fun t => decide (t.1 ∈ done ++ [ev])) = [] :=
    List.filter_eq_nil_iff.mpr fun t ht => by simpa using hpost t ht
  rw [hsplit, List.filter_append, List.filter_append, List.filter_cons_of_pos (by simp),
    List.filter_cons_of_neg (by simpa using hnew), hpreL, hpreL', hpostL, hpostL', List.append_nil]

/-- **A turn of the recv loop keeps the other walk behind the reference.** -/
theorem Follows.recvStep (hf : Follows d d' clean done) (h : Reference sys log timeline seeds d)
    (hsp : Spared sys sys' log clean) (hworld : "world" ∉ sys'.actors)
    (hw : d'.Walk sys' log seeds sys'.actors.keys done)
    (horder : Extends log (done ++ ev :: todo)) (hno : Unclashed sys' log d'.state)
    (hd : d'.recvStep ev = .ok d'') : Follows d d'' clean (done ++ [ev]) := by
  intro a xs hxs hall
  obtain ⟨-, hstep⟩ := Driver.recvStep_keeps hd
  by_cases hmem : ∃ t ∈ xs, t.1 = ev
  · obtain ⟨t, ht, rfl⟩ := hmem
    obtain ⟨htlog, hop, rfl, -⟩ := h.taken_recv (hxs.subset ht)
    have hclean := (hall t ht).1
    obtain ⟨env, htaken, hparsed, hpending⟩ :=
      hf.awaited h hsp hworld hw horder hno hop hclean
    have hold : ∀ r ∈ done, r.op = .recv → r.actor = t.1.actor → clean r := by
      intro r hr _ hactor
      have hrlog : r ∈ log := horder.mem_of_done hr
      rcases Nat.lt_trichotomy r.seq t.1.seq with hlt | heq | hlt
      · exact hsp.causes _ htlog hclean r hrlog (.inl ⟨hactor, hlt⟩)
      · rwa [h.wellFormed.eq_of_coords hrlog htlog hactor heq]
      · -- the event at hand would have been walked
        have hdone := horder.closed hr htlog (.inl ⟨hactor.symm, hlt⟩)
        exact absurd hdone (horder.not_mem_done h.wellFormed)
    have hnext : d''.taken t.1.actor = d'.taken t.1.actor ++ [(t.1, env)] := by
      rcases hstep with ⟨-, hnone⟩ | ⟨m, env', hm, henv', hconsumed⟩
      · rw [hnone hop _ hparsed] at hpending
        cases hpending
      · obtain rfl : env.msgId = m := Option.some.inj (hparsed.symm.trans hm)
        obtain rfl : env' = env := Option.some.inj (henv'.symm.trans hpending)
        rw [Driver.taken, hconsumed, List.filter_append]
        simp [Driver.taken]
    rw [hnext, hf.exact h hw horder hold, ← h.walked_snoc horder htaken]
    have hself : xs.filter (fun t' => decide (t'.1 ∈ done ++ [t.1])) = xs :=
      List.filter_eq_self.mpr fun u hu => decide_eq_true (hall u hu).2
    rw [← hself]
    exact hxs.filter _
  · have hpre : xs <+: d'.taken a := by
      refine hf a xs hxs fun t ht => ⟨(hall t ht).1, ?_⟩
      rcases List.mem_append.mp (hall t ht).2 with hdone | hlast
      · exact hdone
      · exact absurd ⟨t, ht, List.mem_singleton.mp hlast⟩ hmem
    refine hpre.trans ?_
    rcases hstep with ⟨hsame, -⟩ | ⟨m, env, -, -, hconsumed⟩
    · rw [Driver.taken, Driver.taken, hsame]
    · rw [Driver.taken, Driver.taken, hconsumed, List.filter_append]
      exact List.prefix_append ..

omit [DecidableEq τ] in
theorem Below.of_le {a : ActorId} (h : Below log d''.state a)
    (hle : d'.state.sendCount a ≤ d''.state.sendCount a) : Below log d'.state a :=
  fun j hj => h j (hj.trans_le hle)

/-- The other walk of a list of events. -/
theorem Follows.recvLoop (h : Reference sys log timeline seeds d)
    (hsp : Spared sys sys' log clean) (hworld : "world" ∉ sys'.actors)
    (hbelow : ∀ a ∈ sys'.actors, Untouched sys sys' log clean a ∨ Below log d''.state a) :
    ∀ {todo done : List CausalEvent} {d' : Driver τ α σ}, Follows d d' clean done →
      d'.Walk sys' log seeds sys'.actors.keys done → Extends log (done ++ todo) →
      d'.recvLoop todo = .ok d'' →
        Follows d d'' clean (done ++ todo) ∧
          d''.Walk sys' log seeds sys'.actors.keys (done ++ todo)
  | [], done, d', hf, hw, _, hd => by
    cases hd
    rw [List.append_nil]
    exact ⟨hf, hw⟩
  | ev :: todo, done, d', hf, hw, horder, hd => by
    have hsends := Driver.recvLoop_sends hd
    obtain ⟨d₁, h1, h2⟩ := Except.bind_eq_ok.mp hd
    have hno : Unclashed sys' log d'.state := hf.unclashed h hw horder fun a ha =>
      (hbelow a ha).imp_right fun hb => hb.of_le (hsends a)
    have hf₁ := hf.recvStep h hsp hworld hw horder hno h1
    have hw₁ := hw.recvStep (horder.not_mem_done h.wellFormed) h1
    rw [← List.singleton_append, ← List.append_assoc] at horder ⊢
    exact Follows.recvLoop h hsp hworld hbelow hf₁ hw₁ horder h2

/-- **The other re-execution follows the reference on the spared events.** -/
theorem Reference.contains {timeline' : List CausalEvent}
    (h : Reference sys log timeline seeds d) (hsp : Spared sys sys' log clean)
    (hworld : "world" ∉ sys'.actors) (horigins : sys'.origins = sys.origins)
    (horder : Extends log timeline') (hd : sys'.reexecute log timeline' = .ok d'')
    (hbelow : ∀ a ∈ sys'.actors, Untouched sys sys' log clean a ∨ Below log d''.state a) :
    ∃ d', Follows d d' clean timeline' ∧ d'.Walk sys' log seeds sys'.actors.keys timeline' ∧
      d'' = { d' with state := d'.state.complete log } := by
  obtain ⟨d₁, d₂, hstarted, hloop, rfl⟩ := reexecute_started (horigins ▸ h.supplied) hd
  have hf : Follows d d₁ clean [] := by
    intro a xs _ hall
    cases xs with
    | nil => exact List.nil_prefix
    | cons t xs => cases (hall t (List.mem_cons_self ..)).2
  have hbelow : ∀ a ∈ sys'.actors, Untouched sys sys' log clean a ∨ Below log d₂.state a := by
    obtain ⟨ds, hds, -⟩ := complete_eq log d₂.state
    simpa only [Below, hds] using hbelow
  have horder : Extends log ([] ++ timeline') := horder
  obtain ⟨hfollows, hwalk⟩ := Follows.recvLoop h hsp hworld hbelow hf hstarted horder hloop
  exact ⟨d₂, hfollows, hwalk, rfl⟩

section Ends

variable {timeline' : List CausalEvent}

/-- At the end every spared event is there again. -/
theorem Follows.spared_made (hf : Follows d d' clean timeline')
    (h : Reference sys log timeline seeds d) (hsp : Spared sys sys' log clean)
    (hw : d'.Walk sys' log seeds sys'.actors.keys timeline') (horder : Extends log timeline')
    (he : e ∈ log) (hclean : clean e) :
    e ∈ d'.state.journal.events ∨ e ∈ d'.state.journal.seeded.map Prod.fst := by
  rw [hw.trail.seeded]
  refine (h.made he).imp_left fun hmade => ?_
  exact (hf.remade h hsp hw hmade hclean fun f hflog _ _ => horder.perm.mem_iff.mpr hflog).1

/-- Whoever has produced an event is rebuilt in one of the two systems. -/
theorem Reference.maker_rebuilt (h : Reference sys log timeline seeds d)
    (hw : d'.Walk sys' log seeds sys'.actors.keys timeline') (horder : Extends log timeline')
    (he : e ∈ d'.state.journal.events) : e.actor ∈ sys'.actors ∨ e.actor ∈ sys.actors := by
  refine (hw.trail.events e he).2.imp_right fun ⟨r, hr, hop, hra⟩ => ?_
  rw [← hra]
  exact (h.served (horder.perm.mem_iff.mp hr) hop).1

/-- Where a spared event was produced, no other event has its id. -/
theorem Follows.spared_alone (hf : Follows d d' clean timeline')
    (h : Reference sys log timeline seeds d) (hsp : Spared sys sys' log clean)
    (hworld : "world" ∉ sys'.actors)
    (hw : d'.Walk sys' log seeds sys'.actors.keys timeline') (horder : Extends log timeline')
    (he : e ∈ log) (hclean : clean e) (hf' : f ∈ d'.state.journal.events) (hid : f.id = e.id) :
    f = e := by
  rw [(hw.trail.events f hf').1, h.ids e he] at hid
  obtain ⟨hactor, hseq⟩ := idOf_inj.mp hid
  -- the actor was rebuilt, so its events are numbered
  have hrebuilt : e.actor ∈ sys'.actors := by
    rw [← hactor]
    refine (h.maker_rebuilt hw horder hf').elim id fun hsys => ?_
    rw [hactor] at hsys ⊢
    exact (hsp.rebuilt_iff he hclean).mpr hsys
  rcases hf.spared_made h hsp hw horder he hclean with hmade | hseeded
  · obtain ⟨l, hran, hshows⟩ := hw.locals e.actor hrebuilt
    have hnd : ((d'.state.journal.events.filter (·.actor = e.actor)).map (·.seq)).Nodup := by
      rw [← hshows.events, hran.consistent.outcome.seqs]
      exact List.nodup_range'
    exact List.inj_on_of_nodup_map hnd (List.mem_filter.mpr ⟨hf', by simpa using hactor⟩)
      (List.mem_filter.mpr ⟨hmade, by simp⟩) hseq
  · rw [hw.trail.seeded] at hseeded
    rw [(h.of_seeds hseeded).2.2] at hrebuilt
    exact absurd hrebuilt hworld

/-- A spared recv was served. -/
theorem Follows.spared_served (hf : Follows d d' clean timeline')
    (h : Reference sys log timeline seeds d) (hsp : Spared sys sys' log clean)
    (horder : Extends log timeline') (he : e ∈ log) (hclean : clean e) (hop : e.op = .recv) :
    e ∈ d'.state.journal.consumed.map Prod.fst ∧ e.actor ∈ sys'.actors := by
  obtain ⟨hsys, env, henv⟩ := h.served he hop
  obtain ⟨pre, post, hsplit⟩ := List.append_of_mem henv
  have hpre : pre ++ [(e, env)] <+: d.taken e.actor := ⟨post, by rw [hsplit]; simp⟩
  have hseqs := h.taken_seqs e.actor
  rw [hsplit] at hseqs
  have htaken := hf e.actor _ hpre fun t ht => by
    obtain ⟨htlog, -, hta, -⟩ := h.taken_recv (hpre.subset ht)
    refine ⟨?_, horder.perm.mem_iff.mpr htlog⟩
    rcases List.mem_append.mp ht with hin | hlast
    · have hlt := (List.pairwise_append.mp hseqs).2.2 t hin _ (List.mem_cons_self ..)
      exact hsp.causes e he hclean _ htlog (.inl ⟨hta, hlt⟩)
    · rwa [List.mem_singleton.mp hlast]
  have hmem : (e, env) ∈ d'.taken e.actor := htaken.subset (by simp)
  exact ⟨List.mem_map.mpr ⟨_, (Driver.mem_taken.mp hmem).1, rfl⟩,
    (hsp.rebuilt_iff he hclean).mpr hsys⟩

/-- **No divergence names a spared event.** -/
theorem Follows.spared_unnamed (hf : Follows d d' clean timeline')
    (h : Reference sys log timeline seeds d) (hsp : Spared sys sys' log clean)
    (hworld : "world" ∉ sys'.actors)
    (hw : d'.Walk sys' log seeds sys'.actors.keys timeline') (horder : Extends log timeline')
    (he : e ∈ log) (hclean : clean e) :
    ∀ x ∈ (d'.state.complete log).divergences, x.eventId ≠ e.id := by
  intro x hx hxe
  obtain ⟨ds, hds, hall⟩ := complete_eq log d'.state
  rw [hds] at hx
  rcases List.mem_append.mp hx with hwalk | hcomplete
  · cases hw.trail.charged x hwalk with
    | mismatch hf' hid hne =>
      have heq := hf.spared_alone h hsp hworld hw horder he hclean hf' (hid.symm.trans hxe)
      rw [heq] at hne
      exact hne (h.recorded he)
    | overSend hj hover hid =>
      rw [hid, h.ids e he] at hxe
      exact idOf_ne_send _ _ _ _ hxe
    | unserved hev hop hid hno =>
      obtain rfl := h.eq_of_id (horder.perm.mem_iff.mp hev) he (hid.symm.trans hxe)
      obtain ⟨hconsumed, hrebuilt⟩ := hf.spared_served h hsp horder he hclean hop
      exact hno.elim (fun hno => hno hconsumed) fun hno => hno hrebuilt
  · obtain ⟨f, hflog, hmissing, hid⟩ := hall x hcomplete
    obtain rfl := h.eq_of_id hflog he (hid.symm.trans hxe)
    have hmade := hf.spared_made h hsp hw horder he hclean
    rw [hw.trail.seeded] at hmade
    exact hmissing (hw.trail.produced _ hmade)

end Ends

end Other

end Lichtung
