import Lichtung.Replay.Reexec

/-!
# Faithful replays

The invariant of a replay that reports no divergence.  Such a run has passed every check of
`verify`, found every envelope it looked for and left no recorded event out: the produced events
are recorded ones, each actor's are numbered 1, 2, ..., every handler-sent envelope is announced by
a produced emit, and no envelope is consumed twice.  Every step of the driver either reports a
divergence or keeps the invariant.

Principal results: `send_silent`, `recvStep_silent` (what a silent step has done) and
`reexecute_faithful` (a silent re-execution ends in the invariant with every recorded event
produced).
-/

namespace Lichtung

variable {τ α σ : Type}

/-! ## Divergences are never withdrawn -/

namespace ReplayState

@[simp] theorem diverge_ne_nil (s : ReplayState τ α) (id : String) (detail : Detail) :
    (s.diverge id detail).divergences ≠ [] := by
  simp [diverge]

@[simp] theorem deliver_divergences (s : ReplayState τ α) (env : Envelope τ α) :
    (s.deliver env).divergences = s.divergences := rfl

/-- `verify` stays silent only on a recorded event. -/
theorem verify_silent {s : ReplayState τ α} {e : CausalEvent}
    (h : (s.verify e).divergences = []) :
    s.divergences = [] ∧ s.recorded.byId e.id = some e := by
  obtain ⟨hs, hm⟩ := List.append_eq_nil_iff.mp h
  refine ⟨hs, ?_⟩
  unfold mismatch at hm
  split at hm
  · rename_i r hr
    split at hm
    · rename_i hre; rw [hr, hre]
    · cases hm
  · cases hm

end ReplayState

section Backend

variable {id : ActorId} {c : Stamps} {s : ReplayState τ α}

/-- A send for which the next recorded emit of the sender supplies the msg_id. -/
theorem send_recorded [Counter] {addr : Addr τ} {msg : α} {m : Nat}
    (hm : (s.recorded.emitsByActor id)[s.sendCount id]?.bind CausalEvent.parsedMid = some m) :
    Context.send id addr msg c (⟨s, id⟩ : ReplayDispatch τ α) =
      (c.bump id, ⟨({ s with
        sendCount := Function.update s.sendCount id (s.sendCount id + 1) }.verify
          (emitEvent id (c.bump id).seq ((c.bump id).envelope id m addr msg))).deliver
            ((c.bump id).envelope id m addr msg), id⟩) := by
  simp only [Context.send, Dispatch.nextMsgId, ReplayDispatch.nextMsgId, Nat.add_sub_cancel, hm]
  rfl

/-- A send that reports nothing: the next recorded emit of the sender supplies the msg_id, and the
produced emit is recorded. -/
theorem send_silent [Counter] {addr : Addr τ} {msg : α}
    (h : (Context.send id addr msg c (⟨s, id⟩ : ReplayDispatch τ α)).2.state.divergences = []) :
    s.divergences = [] ∧ ∃ m,
      let env := (c.bump id).envelope id m addr msg
      let e := emitEvent id (c.bump id).seq env
      (s.recorded.emitsByActor id)[s.sendCount id]?.bind CausalEvent.parsedMid = some m ∧
      s.recorded.byId e.id = some e ∧
      Context.send id addr msg c (⟨s, id⟩ : ReplayDispatch τ α) =
        (c.bump id, ⟨({ s with
          sendCount := Function.update s.sendCount id (s.sendCount id + 1) }.verify e).deliver env,
          id⟩) := by
  cases hm : (s.recorded.emitsByActor id)[s.sendCount id]?.bind CausalEvent.parsedMid with
  | none =>
    exfalso
    simp only [Context.send, Dispatch.nextMsgId, ReplayDispatch.nextMsgId, Nat.add_sub_cancel,
      hm] at h
    exact ReplayState.diverge_ne_nil _ _ _ (ReplayState.verify_silent h).1
  | some m =>
    rw [send_recorded hm] at h
    obtain ⟨hs, hrec⟩ := ReplayState.verify_silent h
    exact ⟨hs, m, rfl, hrec, send_recorded hm⟩

theorem compute_silent [Counter]
    (h : (Context.compute id c (⟨s, id⟩ : ReplayDispatch τ α)).2.state.divergences = []) :
    s.divergences = [] ∧ s.recorded.byId (idOf id (c.bump id).seq) =
      some (computeEvent id (c.bump id).seq (c.bump id).clock (c.bump id).lamport.val) :=
  ReplayState.verify_silent h

theorem perform_current [Counter] (a : Action (Addr τ) α) (b : ReplayDispatch τ α) :
    (Context.perform id a c b).2.current = b.current := by
  cases a with
  | compute => rfl
  | send addr msg =>
    simp only [Context.perform, Context.send, Dispatch.nextMsgId, ReplayDispatch.nextMsgId]
    split <;> rfl

/-- The backend stays bound to the actor it was made for. -/
theorem perform_snd [Counter] (a : Action (Addr τ) α) :
    (Context.perform id a c (⟨s, id⟩ : ReplayDispatch τ α)).2 =
      ⟨(Context.perform id a c (⟨s, id⟩ : ReplayDispatch τ α)).2.state, id⟩ :=
  congrArg (ReplayDispatch.mk _) (perform_current a _)

theorem perform_silent [Counter] {a : Action (Addr τ) α}
    (h : (Context.perform id a c (⟨s, id⟩ : ReplayDispatch τ α)).2.state.divergences = []) :
    s.divergences = [] := by
  cases a with
  | compute => exact (compute_silent h).1
  | send addr msg => exact (send_silent h).1

theorem performAll_silent [Counter] : ∀ {as : List (Action (Addr τ) α)} {c : Stamps}
    {s : ReplayState τ α},
    (Context.performAll id as c (⟨s, id⟩ : ReplayDispatch τ α)).2.state.divergences = [] →
      s.divergences = []
  | [], _, _, h => h
  | a :: as, c, s, h => by
    rw [Context.performAll, perform_snd] at h
    exact perform_silent (performAll_silent h)

end Backend

/-! ## The parts of the invariant -/

/-- Every actor's events are numbered from 1 without gaps, up to its current seq. -/
def Numbered (clocks : ActorId → Stamps) (events : List CausalEvent) : Prop :=
  ∀ a, (events.filter (·.actor = a)).map (·.seq) = List.range' 1 (clocks a).seq

theorem Numbered.snoc {clocks : ActorId → Stamps} {events : List CausalEvent} {e : CausalEvent}
    {c : Stamps} (h : Numbered clocks events) (he : e.seq = (clocks e.actor).seq + 1)
    (hc : c.seq = e.seq) : Numbered (Function.update clocks e.actor c) (events ++ [e]) := by
  intro a
  by_cases ha : e.actor = a
  · subst ha
    have hr : List.range' 1 ((clocks e.actor).seq + 1) =
        List.range' 1 (clocks e.actor).seq ++ [e.seq] := by
      rw [List.range'_concat, he, Nat.one_mul, Nat.add_comm]
    rw [Function.update_self, hc, he, hr, ← h e.actor]
    simp
  · have := h a
    simpa [ha, Function.update_of_ne (Ne.symm ha)] using this

/-- Numbered events are pairwise distinct. -/
theorem Numbered.nodup {clocks : ActorId → Stamps} {events : List CausalEvent}
    (h : Numbered clocks events) : events.Nodup := by
  rw [List.nodup_iff_count_le_one]
  intro e
  have hnd : (events.filter (·.actor = e.actor)).Nodup :=
    .of_map _ (by rw [h e.actor]; exact List.nodup_range')
  have hc := List.nodup_iff_count_le_one.mp hnd e
  rwa [List.count_filter (by simp)] at hc

/-- The emit `e` announces `env`. -/
structure Announced (e : CausalEvent) (env : Envelope τ α) : Prop where
  actor : e.actor = env.src
  msgId : e.msgId = mid env.msgId
  src : e.src = some env.src
  dst : e.dst = some env.dst

theorem emitEvent_announced (id : ActorId) (seq m : Nat) (c : Stamps) (addr : Addr τ) (msg : α) :
    Announced (emitEvent id seq (c.envelope id m addr msg)) (c.envelope id m addr msg) :=
  ⟨rfl, rfl, rfl, rfl⟩

/-- The recv `e` is `a` taking `env`. -/
structure Receives (a : ActorId) (e : CausalEvent) (env : Envelope τ α) : Prop where
  op : e.op = .recv
  actor : e.actor = a
  msgId : e.msgId = mid env.msgId
  src : e.src = some env.src
  dst : e.dst = some a

/-- Where the envelopes come from and go to: handlers' envelopes are announced by the produced
emits, in order; an envelope consumed or pending was stashed, and no msg_id leaves `pending` more
often than it was put there. -/
structure Routed (j : Journal τ α) (pending : Nat → Option (Envelope τ α)) : Prop where
  sent : List.Forall₂ Announced (j.events.filter (·.op = .emit)) j.sent
  waiting : ∀ m env, pending m = some env → env.msgId = m ∧ env ∈ j.stashed
  counts : ∀ m, (j.consumed.map (·.2.msgId)).count m + (if (pending m).isSome then 1 else 0) ≤
    (j.stashed.map (·.msgId)).count m
  consumed : ∀ t ∈ j.consumed, t.1.parsedMid = some t.2.msgId ∧ t.2 ∈ j.stashed ∧
    ∃ e ∈ j.events, Receives t.1.actor e t.2

theorem Journal.mem_stashed_sent (j : Journal τ α) {env env' : Envelope τ α}
    {events : List CausalEvent} (h : env ∈ j.stashed) :
    env ∈ { j with events := events, sent := j.sent ++ [env'] : Journal τ α }.stashed := by
  rcases List.mem_append.mp h with h | h
  · exact List.mem_append_left _ h
  · exact List.mem_append_right _ (List.mem_append_left _ h)

theorem Journal.mem_stashed_seed (j : Journal τ α) {env : Envelope τ α}
    {p : CausalEvent × Envelope τ α} (h : env ∈ j.stashed) :
    env ∈ { j with seeded := j.seeded ++ [p] : Journal τ α }.stashed := by
  rcases List.mem_append.mp h with h | h
  · exact List.mem_append_left _ (by rw [List.map_append]; exact List.mem_append_left _ h)
  · exact List.mem_append_right _ h

/-- Putting an envelope into `pending`: what waits is still found under its own msg_id. -/
theorem waiting_put {pending : Nat → Option (Envelope τ α)} {stashed stashed' : List (Envelope τ α)}
    {env : Envelope τ α} (h : ∀ m env', pending m = some env' → env'.msgId = m ∧ env' ∈ stashed)
    (henv : env ∈ stashed') (hsub : ∀ env' ∈ stashed, env' ∈ stashed') (m : Nat)
    (env' : Envelope τ α) (hp : Function.update pending env.msgId (some env) m = some env') :
    env'.msgId = m ∧ env' ∈ stashed' := by
  by_cases hm : m = env.msgId
  · subst hm
    rw [Function.update_self] at hp
    cases hp
    exact ⟨rfl, henv⟩
  · rw [Function.update_of_ne hm] at hp
    obtain ⟨hid, hst⟩ := h m env' hp
    exact ⟨hid, hsub env' hst⟩

namespace Routed

variable {j : Journal τ α} {pending : Nat → Option (Envelope τ α)} (h : Routed j pending)
include h

theorem compute {e : CausalEvent} (he : e.op = .compute) :
    Routed { j with events := j.events ++ [e] } pending where
  sent := by simpa [he] using h.sent
  waiting := h.waiting
  counts := h.counts
  consumed := by
    intro t ht
    obtain ⟨hm, hs, r, hr, hrec⟩ := h.consumed t ht
    exact ⟨hm, hs, r, List.mem_append_left _ hr, hrec⟩

/-- Putting one more envelope into `pending`. -/
theorem counts_insert {env : Envelope τ α} {stashed : List (Envelope τ α)}
    (hst : ∀ m, (stashed.map (·.msgId)).count m =
      (j.stashed.map (·.msgId)).count m + if env.msgId = m then 1 else 0) (m : Nat) :
    (j.consumed.map (·.2.msgId)).count m +
        (if (Function.update pending env.msgId (some env) m).isSome then 1 else 0) ≤
      (stashed.map (·.msgId)).count m := by
  have hc := h.counts m
  rw [hst m]
  by_cases hm : env.msgId = m
  · subst hm; simp; omega
  · rw [Function.update_of_ne (Ne.symm hm), if_neg hm]; exact hc

theorem emit {e : CausalEvent} {env : Envelope τ α} (he : e.op = .emit) (ha : Announced e env) :
    Routed { j with events := j.events ++ [e], sent := j.sent ++ [env] }
      (Function.update pending env.msgId (some env)) where
  sent := by
    simp only [List.filter_append, List.filter_cons, he, List.filter_nil, decide_true, if_true]
    exact List.rel_append h.sent (.cons ha .nil)
  waiting :=
    waiting_put h.waiting (by simp [Journal.stashed]) fun _ hst => j.mem_stashed_sent hst
  counts := by
    intro m
    refine h.counts_insert (fun m => ?_) m
    simp [Journal.stashed, List.count_singleton, Nat.add_assoc]
  consumed := by
    intro t ht
    obtain ⟨hm, hs, r, hr, hrec⟩ := h.consumed t ht
    exact ⟨hm, j.mem_stashed_sent hs, r, List.mem_append_left _ hr, hrec⟩

theorem seed {we : CausalEvent} {env : Envelope τ α} :
    Routed { j with seeded := j.seeded ++ [(we, env)] }
      (Function.update pending env.msgId (some env)) where
  sent := h.sent
  waiting :=
    waiting_put h.waiting (by simp [Journal.stashed]) fun _ hst => j.mem_stashed_seed hst
  counts := by
    intro m
    refine h.counts_insert (fun m => ?_) m
    simp only [Journal.stashed, List.map_append, List.map_cons, List.map_nil, List.count_append,
      List.count_singleton, beq_iff_eq]
    omega
  consumed := by
    intro t ht
    obtain ⟨hm, hs, r, hr, hrec⟩ := h.consumed t ht
    exact ⟨hm, j.mem_stashed_seed hs, r, hr, hrec⟩

theorem recv {ev e : CausalEvent} {m : Nat} {env : Envelope τ α} (hp : pending m = some env)
    (hm : ev.parsedMid = some m) (hr : Receives ev.actor e env) :
    Routed { j with events := j.events ++ [e], consumed := j.consumed ++ [(ev, env)] }
      (Function.update pending m none) where
  sent := by simpa [hr.op] using h.sent
  waiting := by
    intro k env' hk
    by_cases hkm : k = m
    · subst hkm; rw [Function.update_self] at hk; cases hk
    · rw [Function.update_of_ne hkm] at hk; exact h.waiting k env' hk
  counts := by
    intro k
    have hc := h.counts k
    obtain ⟨rfl, -⟩ := h.waiting m env hp
    by_cases hk : k = env.msgId
    · subst hk
      rw [hp] at hc
      simpa [Journal.stashed] using hc
    · simpa [Journal.stashed, Function.update_of_ne hk, List.count_singleton, Ne.symm hk] using hc
  consumed := by
    intro t ht
    rcases List.mem_append.mp ht with ht | ht
    · obtain ⟨hm, hs, r, hr, hrec⟩ := h.consumed t ht
      exact ⟨hm, hs, r, List.mem_append_left _ hr, hrec⟩
    · obtain rfl := List.mem_singleton.mp ht
      obtain ⟨rfl, hs⟩ := h.waiting m env hp
      exact ⟨hm, hs, e, List.mem_append_right _ (List.mem_singleton.mpr rfl), hr⟩

end Routed

/-! ## The invariant and the handlers -/

/-- The state of a silent replay of `log` on `sys`, after the origins `seeds` were seeded and the
recvs `done` were walked. -/
structure Faithful (sys : ReplaySystem τ α σ) (log : List CausalEvent)
    (seeds : List (CausalEvent × Envelope τ α)) (done : List CausalEvent)
    (clocks : ActorId → Stamps) (s : ReplayState τ α) : Prop where
  recorded : s.recorded = .build log
  seeded : s.journal.seeded = seeds
  walked : s.journal.consumed.map Prod.fst = done
  rebuilt : ∀ t ∈ s.journal.consumed, t.1.actor ∈ sys.actors
  events : ∀ e ∈ s.journal.events, e ∈ log ∧ e.actor ∈ sys.actors
  produced : ∀ id ∈ s.produced, ∃ e ∈ seeds.map Prod.fst ++ s.journal.events, e.id = id
  numbered : Numbered clocks s.journal.events
  routed : Routed s.journal s.pending

section Handlers

variable {sys : ReplaySystem τ α σ} {log : List CausalEvent}
  {seeds : List (CausalEvent × Envelope τ α)} {done : List CausalEvent}
  {clocks : ActorId → Stamps} {s : ReplayState τ α}

theorem Faithful.produced_insert (h : Faithful sys log seeds done clocks s) (e : CausalEvent) :
    ∀ id ∈ insert e.id s.produced,
      ∃ f ∈ seeds.map Prod.fst ++ (s.journal.events ++ [e]), f.id = id := by
  intro id hid
  rcases Finset.mem_insert.mp hid with rfl | hid
  · exact ⟨e, by simp, rfl⟩
  · obtain ⟨f, hf, hfid⟩ := h.produced id hid
    refine ⟨f, ?_, hfid⟩
    rw [← List.append_assoc]
    exact List.mem_append_left _ hf

theorem Faithful.events_snoc (h : Faithful sys log seeds done clocks s) {e : CausalEvent}
    (he : s.recorded.byId e.id = some e) (ha : e.actor ∈ sys.actors) :
    ∀ f ∈ s.journal.events ++ [e], f ∈ log ∧ f.actor ∈ sys.actors := by
  intro f hf
  rcases List.mem_append.mp hf with hf | hf
  · exact h.events f hf
  · obtain rfl := List.mem_singleton.mp hf
    rw [h.recorded] at he
    exact ⟨(RecordedIndex.build_byId_some he).1, ha⟩

variable {id : ActorId} {c : Stamps}

/-- One call of a handler that reports nothing. -/
theorem Faithful.perform (h : Faithful sys log seeds done (Function.update clocks id c) s)
    (hid : id ∈ sys.actors) {a : Action (Addr τ) α}
    (hs : (Context.perform id a c (⟨s, id⟩ : ReplayDispatch τ α)).2.state.divergences = []) :
    Faithful sys log seeds done
      (Function.update clocks id (Context.perform id a c (⟨s, id⟩ : ReplayDispatch τ α)).1)
      (Context.perform id a c (⟨s, id⟩ : ReplayDispatch τ α)).2.state := by
  have hnum : ∀ e : CausalEvent, e.actor = id → e.seq = c.seq + 1 →
      Numbered (Function.update clocks id (c.bump id)) (s.journal.events ++ [e]) := by
    rintro e rfl he
    have := h.numbered.snoc (e := e) (c := c.bump e.actor) (by simpa using he) (by simpa using he.symm)
    rwa [Function.update_idem] at this
  cases a with
  | compute =>
    obtain ⟨-, he⟩ := compute_silent hs
    exact {
      recorded := h.recorded
      seeded := h.seeded
      walked := h.walked
      rebuilt := h.rebuilt
      events := h.events_snoc he hid
      produced := h.produced_insert _
      numbered := hnum _ rfl rfl
      routed := h.routed.compute rfl }
  | send addr msg =>
    obtain ⟨-, m, -, he, heq⟩ := send_silent hs
    have ha := emitEvent_announced id (c.bump id).seq m (c.bump id) addr msg
    simp only [Context.perform, heq]
    exact {
      recorded := h.recorded
      seeded := h.seeded
      walked := h.walked
      rebuilt := h.rebuilt
      events := h.events_snoc he hid
      produced := h.produced_insert _
      numbered := hnum _ rfl rfl
      routed := h.routed.emit rfl ha }

theorem Faithful.performAll : ∀ {as : List (Action (Addr τ) α)} {c : Stamps}
    {s : ReplayState τ α}, Faithful sys log seeds done (Function.update clocks id c) s →
    id ∈ sys.actors →
    (Context.performAll id as c (⟨s, id⟩ : ReplayDispatch τ α)).2.state.divergences = [] →
    Faithful sys log seeds done
      (Function.update clocks id (Context.performAll id as c (⟨s, id⟩ : ReplayDispatch τ α)).1)
      (Context.performAll id as c (⟨s, id⟩ : ReplayDispatch τ α)).2.state
  | [], _, _, h, _, _ => h
  | a :: as, c, s, h, hid, hs => by
    rw [Context.performAll, perform_snd] at hs ⊢
    exact (h.perform hid (performAll_silent hs)).performAll hid hs

end Handlers

/-! ## The driver -/

namespace Driver

variable [DecidableEq τ] {d d' : Driver τ α σ}

/-- What a drive that returns has done. -/
theorem drive_ok [Counter] {dst : ActorId} {msg : Option (Boxed τ α)}
    (h : d.drive dst msg = .ok d') :
    ∃ t state actions, d.actors[dst]? = some t ∧ invoke t msg = some (state, actions) ∧
      d' = {
        actors := d.actors.insert dst ⟨t.actor, state⟩
        clocks := Function.update d.clocks dst
          (Context.performAll dst actions (d.clocks dst) (⟨d.state, dst⟩ : ReplayDispatch τ α)).1
        state := (Context.performAll dst actions (d.clocks dst)
          (⟨d.state, dst⟩ : ReplayDispatch τ α)).2.state } := by
  unfold drive at h
  split at h
  · cases h
  · rename_i t ht
    split at h
    · cases h
    · rename_i state actions hinv
      cases h
      exact ⟨t, state, actions, ht, hinv, rfl⟩

theorem drive_silent [Counter] {dst : ActorId} {msg : Option (Boxed τ α)}
    (h : d.drive dst msg = .ok d') (hs : d'.state.divergences = []) : d.state.divergences = [] := by
  obtain ⟨t, state, actions, -, -, rfl⟩ := drive_ok h
  exact performAll_silent hs

/-- A turn of the recv loop that reports nothing: the event is no recv, or its envelope was
pending, its actor was rebuilt, and the actor was run on the payload. -/
theorem recvStep_silent [Counter] {ev : CausalEvent} (h : d.recvStep ev = .ok d')
    (hs : d'.state.divergences = []) : ev.op ≠ .recv ∧ d' = d ∨
      ev.op = .recv ∧ ∃ m env, ev.parsedMid = some m ∧ d.state.pending m = some env ∧
        ev.actor ∈ d.actors ∧
        ({ d with state := d.state.consume ev m env }.stampRecv ev.actor env).drive ev.actor
          (some env.msg) = .ok d' := by
  unfold recvStep at h
  split at h
  · rename_i hop
    cases h
    exact .inl ⟨hop, rfl⟩
  · rename_i hop
    split at h
    · cases h; simp at hs
    · rename_i m hm
      split at h
      · cases h; simp at hs
      · rename_i env henv
        dsimp only at h
        split at h
        · cases h; simp at hs
        · rename_i hmem
          exact .inr ⟨not_not.mp hop, m, env, hm, henv, not_not.mp hmem, h⟩

section Loops

variable {sys : ReplaySystem τ α σ} {log : List CausalEvent}
  {seeds : List (CausalEvent × Envelope τ α)} {done : List CausalEvent}

/-- The driver of a silent replay. -/
structure Faithful (sys : ReplaySystem τ α σ) (log : List CausalEvent)
    (seeds : List (CausalEvent × Envelope τ α)) (done : List CausalEvent)
    (d : Driver τ α σ) : Prop where
  actors : ∀ a, a ∈ d.actors ↔ a ∈ sys.actors
  state : Lichtung.Faithful sys log seeds done d.clocks d.state

theorem Faithful.drive (h : d.Faithful sys log seeds done) {dst : ActorId}
    {msg : Option (Boxed τ α)} (hd : d.drive dst msg = .ok d')
    (hs : d'.state.divergences = []) : d'.Faithful sys log seeds done := by
  obtain ⟨t, state, actions, ht, -, rfl⟩ := drive_ok hd
  have hmem : dst ∈ d.actors := (getElem_of_getElem? ht).1
  have hfaith := h.state
  rw [← Function.update_eq_self dst d.clocks] at hfaith
  refine ⟨fun a => ?_, hfaith.performAll ((h.actors dst).mp hmem) hs⟩
  rw [Std.ExtTreeMap.mem_insert, Std.LawfulEqCmp.compare_eq_iff_eq, ← h.actors a]
  constructor
  · rintro (rfl | ha)
    · exact hmem
    · exact ha
  · exact .inr

omit [DecidableEq τ] in
theorem Faithful.stampRecv {ev : CausalEvent} {m : Nat} {env : Envelope τ α}
    (h : d.Faithful sys log seeds done) (hm : ev.parsedMid = some m)
    (henv : d.state.pending m = some env) (ha : ev.actor ∈ d.actors)
    (hs : ({ d with state := d.state.consume ev m env }.stampRecv ev.actor env).state.divergences
      = []) :
    ({ d with state := d.state.consume ev m env }.stampRecv ev.actor env).Faithful sys log seeds
      (done ++ [ev]) := by
  have hsys := (h.actors ev.actor).mp ha
  have he := (ReplayState.verify_silent hs).2
  refine ⟨h.actors, {
    recorded := h.state.recorded
    seeded := h.state.seeded
    walked := by
      show List.map Prod.fst (d.state.journal.consumed ++ [(ev, env)]) = _
      rw [List.map_append, h.state.walked]; rfl
    rebuilt := fun t ht => ?_
    events := h.state.events_snoc he hsys
    produced := h.state.produced_insert _
    numbered := h.state.numbered.snoc rfl rfl
    routed := h.state.routed.recv henv hm ⟨rfl, rfl, rfl, rfl, rfl⟩ }⟩
  rcases List.mem_append.mp ht with ht | ht
  · exact h.state.rebuilt t ht
  · obtain rfl := List.mem_singleton.mp ht
    exact hsys

/-- One turn of the recv loop either reports a divergence or keeps the invariant. -/
theorem Faithful.recvStep {ev : CausalEvent} (h : d.Faithful sys log seeds done)
    (hd : d.recvStep ev = .ok d') (hs : d'.state.divergences = []) :
    d'.Faithful sys log seeds (done ++ [ev].filter (·.op = .recv)) := by
  rcases recvStep_silent hd hs with ⟨hop, rfl⟩ | ⟨hop, m, env, hm, henv, ha, hdrive⟩
  · simpa [hop] using h
  · have hclean := drive_silent hdrive hs
    have := (h.stampRecv hm henv ha hclean).drive hdrive hs
    simpa [hop] using this

theorem recvStep_quiet [Counter] {ev : CausalEvent} (hd : d.recvStep ev = .ok d')
    (hs : d'.state.divergences = []) : d.state.divergences = [] := by
  rcases recvStep_silent hd hs with ⟨-, rfl⟩ | ⟨-, m, env, -, -, -, hdrive⟩
  · exact hs
  · exact (ReplayState.verify_silent (drive_silent hdrive hs)).1

theorem recvLoop_quiet [Counter] : ∀ {evs : List CausalEvent} {d : Driver τ α σ},
    recvLoop evs d = .ok d' → d'.state.divergences = [] → d.state.divergences = []
  | [], _, hd, hs => by cases hd; exact hs
  | ev :: evs, d, hd, hs => by
    obtain ⟨d₁, h1, h2⟩ := Except.bind_eq_ok.mp hd
    exact recvStep_quiet h1 (recvLoop_quiet h2 hs)

theorem Faithful.recvLoop : ∀ {evs done : List CausalEvent} {d : Driver τ α σ},
    d.Faithful sys log seeds done → recvLoop evs d = .ok d' → d'.state.divergences = [] →
      d'.Faithful sys log seeds (done ++ evs.filter (·.op = .recv))
  | [], done, _, h, hd, _ => by cases hd; simpa using h
  | ev :: evs, done, d, h, hd, hs => by
    obtain ⟨d₁, h1, h2⟩ := Except.bind_eq_ok.mp hd
    have := (h.recvStep h1 (recvLoop_quiet h2 hs)).recvLoop h2 hs
    rwa [List.append_assoc, ← List.filter_append, List.singleton_append] at this

theorem startAll_quiet [Counter] : ∀ {names : List ActorId} {d : Driver τ α σ},
    startAll names d = .ok d' → d'.state.divergences = [] → d.state.divergences = []
  | [], _, hd, hs => by cases hd; exact hs
  | name :: names, d, hd, hs => by
    obtain ⟨d₁, h1, h2⟩ := Except.bind_eq_ok.mp hd
    exact drive_silent h1 (startAll_quiet h2 hs)

theorem Faithful.startAll : ∀ {names : List ActorId} {d : Driver τ α σ},
    d.Faithful sys log seeds done → startAll names d = .ok d' → d'.state.divergences = [] →
      d'.Faithful sys log seeds done
  | [], _, h, hd, _ => by cases hd; exact h
  | name :: names, d, h, hd, hs => by
    obtain ⟨d₁, h1, h2⟩ := Except.bind_eq_ok.mp hd
    exact (h.drive h1 (startAll_quiet h2 hs)).startAll h2 hs

end Loops

end Driver

/-! ## Seeding and completeness -/

/-- `pairs` are the world emits from number `k` on with the envelopes made of the origins at their
positions. -/
inductive Supplied (origins : List (ActorId × Boxed τ α)) :
    Nat → List CausalEvent → List (CausalEvent × Envelope τ α) → Prop where
  | nil (k : Nat) : Supplied origins k [] []
  | cons {k m : Nat} {we : CausalEvent} {o : ActorId × Boxed τ α} {wes : List CausalEvent}
      {pairs : List (CausalEvent × Envelope τ α)} (hm : we.parsedMid = some m)
      (ho : origins[k]? = some o) (h : Supplied origins (k + 1) wes pairs) :
      Supplied origins k (we :: wes) ((we, ReplayState.originEnvelope we m o) :: pairs)

theorem Supplied.map_fst {origins : List (ActorId × Boxed τ α)} {k : Nat} {wes : List CausalEvent}
    {pairs : List (CausalEvent × Envelope τ α)} (h : Supplied origins k wes pairs) :
    pairs.map Prod.fst = wes := by
  induction h with
  | nil => rfl
  | cons _ _ _ ih => rw [List.map_cons, ih]

theorem Supplied.get {origins : List (ActorId × Boxed τ α)} {k : Nat} {wes : List CausalEvent}
    {pairs : List (CausalEvent × Envelope τ α)} (h : Supplied origins k wes pairs) :
    ∀ {i : Nat} {we : CausalEvent}, wes[i]? = some we → ∃ m o, we.parsedMid = some m ∧
      origins[k + i]? = some o ∧ pairs[i]? = some (we, ReplayState.originEnvelope we m o) := by
  induction h with
  | nil => intro i we hi; simp at hi
  | cons hm ho _ ih =>
    intro i we hi
    cases i with
    | zero =>
      obtain rfl : _ = we := by simpa using hi
      exact ⟨_, _, hm, ho, by simp⟩
    | succ i =>
      obtain ⟨m, o, hm', ho', hp⟩ := ih (by simpa using hi)
      exact ⟨m, o, hm', by rw [← ho']; congr 1; omega, by simpa using hp⟩

theorem Supplied.emit {origins : List (ActorId × Boxed τ α)} {k : Nat} {wes : List CausalEvent}
    {pairs : List (CausalEvent × Envelope τ α)} (h : Supplied origins k wes pairs) :
    ∀ p ∈ pairs, p.1.parsedMid = some p.2.msgId ∧ p.2.src = "world" := by
  induction h with
  | nil => intro p hp; cases hp
  | cons hm _ _ ih =>
    intro p hp
    rcases List.mem_cons.mp hp with rfl | hp
    · exact ⟨hm, rfl⟩
    · exact ih p hp

section Passes

variable {sys : ReplaySystem τ α σ} {log : List CausalEvent}

theorem Faithful.seed {seeds : List (CausalEvent × Envelope τ α)} {done : List CausalEvent}
    {clocks : ActorId → Stamps} {s : ReplayState τ α}
    (h : Faithful sys log seeds done clocks s) (we : CausalEvent) (env : Envelope τ α) :
    Faithful sys log (seeds ++ [(we, env)]) done clocks (s.seed we env) where
  recorded := h.recorded
  seeded := by show s.journal.seeded ++ _ = _; rw [h.seeded]
  walked := h.walked
  rebuilt := h.rebuilt
  events := h.events
  produced := by
    intro id hid
    rcases Finset.mem_insert.mp hid with rfl | hid
    · exact ⟨we, by simp, rfl⟩
    · obtain ⟨e, he, heid⟩ := h.produced id hid
      refine ⟨e, ?_, heid⟩
      rcases List.mem_append.mp he with he | he
      · rw [List.map_append]
        exact List.mem_append_left _ (List.mem_append_left _ he)
      · exact List.mem_append_right _ he
  numbered := h.numbered
  routed := h.routed.seed

/-- A silent turn of the seeding loop has found a well-formed msg_id and an origin. -/
theorem seedOrigin_silent {s : ReplayState τ α} {we : CausalEvent}
    {origin : Option (ActorId × Boxed τ α)} (h : (s.seedOrigin we origin).divergences = []) :
    s.divergences = [] ∧ ∃ m o, we.parsedMid = some m ∧ origin = some o ∧
      s.seedOrigin we origin = s.seed we (ReplayState.originEnvelope we m o) := by
  unfold ReplayState.seedOrigin at h ⊢
  cases hm : we.parsedMid with
  | none => simp [hm] at h
  | some m =>
    cases origin with
    | none => simp [hm] at h
    | some o =>
      simp only [hm] at h
      exact ⟨h, m, o, rfl, rfl, rfl⟩

theorem seedOrigins_quiet {origins : List (ActorId × Boxed τ α)} :
    ∀ {wes : List CausalEvent} {k : Nat} {s : ReplayState τ α},
      (ReplayState.seedOrigins origins k wes s).divergences = [] → s.divergences = []
  | [], _, _, h => h
  | _ :: _, _, _, h => (seedOrigin_silent (seedOrigins_quiet h)).1

theorem Faithful.seedOrigins {origins : List (ActorId × Boxed τ α)} {done : List CausalEvent}
    {clocks : ActorId → Stamps} :
    ∀ {wes : List CausalEvent} {k : Nat} {seeds : List (CausalEvent × Envelope τ α)}
      {s : ReplayState τ α}, Faithful sys log seeds done clocks s →
      (ReplayState.seedOrigins origins k wes s).divergences = [] →
      ∃ pairs, Supplied origins k wes pairs ∧ Faithful sys log (seeds ++ pairs) done clocks
        (ReplayState.seedOrigins origins k wes s)
  | [], k, seeds, s, h, _ => ⟨[], .nil k, by rwa [List.append_nil]⟩
  | we :: wes, k, seeds, s, h, hend => by
    obtain ⟨-, m, o, hm, ho, heq⟩ := seedOrigin_silent (seedOrigins_quiet hend)
    rw [ReplayState.seedOrigins, heq] at hend ⊢
    obtain ⟨pairs, hp, hf⟩ := (h.seed we (ReplayState.originEnvelope we m o)).seedOrigins hend
    exact ⟨_, .cons hm ho hp, by rwa [List.append_assoc, List.singleton_append] at hf⟩

theorem complete_silent : ∀ {es : List CausalEvent} {s : ReplayState τ α},
    (s.complete es).divergences = [] → s.complete es = s ∧ ∀ e ∈ es, e.id ∈ s.produced
  | [], s, _ => ⟨rfl, by simp⟩
  | e :: es, s, h => by
    rw [ReplayState.complete] at h ⊢
    obtain ⟨heq, hes⟩ := complete_silent h
    by_cases he : e.id ∈ s.produced
    · rw [if_pos he] at heq hes ⊢
      exact ⟨heq, fun f hf => (List.mem_cons.mp hf).elim (fun h => h ▸ he) (hes f)⟩
    · rw [heq, if_neg he] at h
      simp at h

/-- The completeness pass is silent where everything was produced. -/
theorem complete_produced : ∀ {es : List CausalEvent} {s : ReplayState τ α},
    (∀ e ∈ es, e.id ∈ s.produced) → s.complete es = s
  | [], _, _ => rfl
  | e :: es, s, h => by
    rw [ReplayState.complete, if_pos (h e (List.mem_cons_self ..))]
    exact complete_produced fun f hf => h f (List.mem_cons_of_mem _ hf)

variable [DecidableEq τ]

/-- **A silent re-execution ends in the invariant, with every recorded event produced.** -/
theorem reexecute_faithful {timeline : List CausalEvent} {d : Driver τ α σ}
    (h : sys.reexecute log timeline = .ok d) (hs : d.state.divergences = []) :
    ∃ seeds, Supplied sys.origins 0 ((RecordedIndex.build log).emitsByActor "world") seeds ∧
      d.Faithful sys log seeds (timeline.filter (·.op = .recv)) ∧
      ∀ e ∈ log, e.id ∈ d.state.produced := by
  obtain ⟨d₁, h1, h'⟩ := Except.bind_eq_ok.mp h
  obtain ⟨d₂, h2, h3⟩ := Except.bind_eq_ok.mp h'
  cases h3
  obtain ⟨hcomp, hall⟩ := complete_silent hs
  dsimp only at hs ⊢
  rw [hcomp] at hs ⊢
  have hs₁ := Driver.recvLoop_quiet h2 hs
  have hinit : Faithful sys log [] [] (fun _ => .zero) (ReplayState.init log : ReplayState τ α) := {
    recorded := rfl
    seeded := rfl
    walked := rfl
    rebuilt := fun t ht => by cases ht
    events := fun e he => by cases he
    produced := fun id hid => by cases hid
    numbered := fun a => rfl
    routed := {
      sent := .nil
      waiting := fun m env h => by cases h
      counts := fun m => Nat.zero_le _
      consumed := fun t ht => by cases ht } }
  have hseed : (sys.seeded log).state.divergences = [] := Driver.startAll_quiet h1 hs₁
  obtain ⟨seeds, hsup, hf⟩ := hinit.seedOrigins hseed
  have hstart : (sys.seeded log).Faithful sys log seeds [] := ⟨fun a => Iff.rfl, hf⟩
  refine ⟨seeds, hsup, ?_, hall⟩
  exact (hstart.startAll h1 hs₁).recvLoop h2 hs

end Passes

end Lichtung
