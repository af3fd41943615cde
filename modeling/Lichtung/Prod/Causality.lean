import Lichtung.Lib.CausalHistory
import Lichtung.Prod.Death
import Lichtung.Prod.Line
import Lichtung.Replay.Engine

/-!
# The causal record of a production run

The log of a run is a vector-clock history: every event is stamped from the clock its actor has
reached and, for a recv, from the clock of the recorded emit.  `send_external` stamps every
`world` emit with the coordinate `(world, 1)`, so this holds while at most one is recorded.

Principal results: `Chronicle.step` (the log is a history),
`accepted_iff` (which logs `replay_log` accepts) and `embedding_exact` (happens-before is the
order of the recorded clocks).
-/

namespace Lichtung.Prod

open Transition CausalHistory

variable {ι τ α σ : Type} [DecidableEq ι] [DecidableEq τ] {sys : Topology ι τ α σ}
  {s s' : Config ι τ α σ}

/-! ## The log as a history -/

/-- How the recorded events are read as a history. -/
def recording : Recording CausalEvent ActorId where
  line := CausalEvent.actor
  seq := CausalEvent.seq
  clock e := e.vclock.components
  sent := MessageOrder

/-- The `emit` of the envelope is in the log. -/
def Sent (events : List CausalEvent) (env : Envelope τ α) : Prop :=
  ∃ seq, emitEvent env.src seq env ∈ events

/-- The envelope of a `send_external`. -/
def FromWorld (env : Envelope τ α) : Prop :=
  env.src = "world" ∧ env.vclock = VectorClock.new.increment "world"

/-- Every envelope under way was recorded when it was sent. -/
def Traced (s : Config ι τ α σ) : Prop :=
  Carries (fun _ => Sent s.events) (fun _ => FromWorld) s

theorem Traced.step {l : Label ι α} (h : Traced s) (hs : Step sys s l s') : Traced s' := by
  have hgrow : Carries (fun _ => Sent s'.events) (fun _ => FromWorld) s :=
    h.mono (fun _ env ⟨seq, henv⟩ => ⟨seq, hs.records.grows.subset henv⟩) fun _ _ h => h
  refine hgrow.step hs ?_ (fun _ _ _ => ⟨rfl, rfl⟩) ?_
  · rintro i phase rest addr msg m env - - rfl hev
    exact ⟨_, by rw [hev]; exact List.mem_append_right _ (List.mem_singleton.mpr rfl)⟩
  · intro x hx hstage hev hworld
    exact ⟨1, by rw [hworld.1, hev]; simp⟩

/-- The log is a history, the stamps of each actor the ones its line has reached. -/
structure Chronicle (sys : Topology ι τ α σ) (s : Config ι τ α σ) : Prop where
  history : ∃ cur, Recording.History recording s.events cur ∧
    ∀ i, cur (sys.name i) = (s.stamps i).clock.get
  seq : ∀ i, (s.stamps i).seq = recording.count s.events (sys.name i)

omit [DecidableEq ι] [DecidableEq τ] in
theorem Chronicle.init (sys : Topology ι τ α σ) : Chronicle sys (Config.init sys) where
  history := ⟨_, .nil, fun _ => by funext k; exact (VectorClock.get_new k).symm⟩
  seq := fun _ => rfl

omit [DecidableEq τ] in
/-- An actor records an event with the stamps it advances. -/
theorem Chronicle.act (hn : Named sys) (h : Chronicle sys s) {i : ι} {e : CausalEvent} {c : Stamps}
    (hline : e.actor = sys.name i) (hclock : e.vclock.components = c.clock.get)
    (hseq : c.seq = (s.stamps i).seq + 1) (hev : s'.events = s.events ++ [e])
    (hst : s'.stamps = Function.update s.stamps i c)
    (hist : ∀ cur, Recording.History recording s.events cur →
      cur (sys.name i) = (s.stamps i).clock.get → Recording.History recording (s.events ++ [e])
        (Function.update cur (recording.line e) (recording.clock e))) : Chronicle sys s' := by
  obtain ⟨cur, hcur, hstamps⟩ := h.history
  have hl : recording.line e = sys.name i := hline
  refine ⟨⟨_, hev ▸ hist cur hcur (hstamps i), fun j => ?_⟩, fun j => ?_⟩
  · rw [hst, hl]
    by_cases hij : j = i
    · subst hij; rw [Function.update_self, Function.update_self]; exact hclock
    · rw [Function.update_of_ne hij, Function.update_of_ne (hn.injective.ne hij)]
      exact hstamps j
  · rw [hst, hev, Recording.count_snoc, hl, ← h.seq j]
    by_cases hij : j = i
    · subst hij; rw [Function.update_self, if_pos rfl, hseq]
    · rw [Function.update_of_ne hij, if_neg (hn.injective.ne (Ne.symm hij)), Nat.add_zero]

theorem Chronicle.step (hn : Named sys) (h : Chronicle sys s) (ht : Traced s)
    (hr : Records sys s s') (hw : recording.count s'.events "world" ≤ 1) : Chronicle sys s' := by
  cases hr with
  | nothing hev hst hplay => exact ⟨by rw [hev, hst]; exact h.history, by rw [hev, hst]; exact h.seq⟩
  | compute i phase rest c hpc hc hev htasks =>
    have hst := stamps_task htasks rfl
    refine h.act hn (i := i) rfl rfl (by rw [hc]; rfl) hev hst fun cur hcur hi => ?_
    refine .own hcur (fun m hm => by cases hm.2.1) ?_ ?_
    · rw [hc]; exact congrArg (· + 1) (h.seq i)
    · show c.clock.get = tick (sys.name i) (cur (sys.name i))
      rw [hc, hi]
      funext k
      rw [Stamps.bump_get, tick, Function.update_apply]
  | emit i phase rest addr msg m c env hpc hc henv hev htasks =>
    have hst := stamps_task htasks rfl
    have hclock : env.vclock.toStringMap.components = c.clock.get := by rw [henv]; rfl
    refine h.act hn (i := i) rfl hclock (by rw [hc]; rfl) hev hst fun cur hcur hi => ?_
    refine .own hcur (fun m hm => by cases hm.2.1) ?_ ?_
    · rw [hc]; exact congrArg (· + 1) (h.seq i)
    · show env.vclock.toStringMap.components = tick (sys.name i) (cur (sys.name i))
      rw [hclock, hc, hi]
      funext k
      rw [Stamps.bump_get, tick, Function.update_apply]
  | recv i c env hpc hc hev htasks =>
    have hst := stamps_task htasks rfl
    obtain ⟨seq, hsent⟩ : Sent s.events env := by
      have := ht.tasks i
      rwa [hpc] at this
    refine h.act hn (i := i) rfl rfl (by rw [hc]; rfl) hev hst fun cur hcur hi => ?_
    refine .recv hcur hsent ⟨rfl, rfl, _, rfl, rfl⟩ ?_ ?_
    · rw [hc]; exact congrArg (· + 1) (h.seq i)
    · show c.clock.get = tick (sys.name i) fun k => max (cur (sys.name i) k) (env.vclock.get k)
      rw [hc, hi]
      funext k
      rw [Stamps.receive_get, tick, Function.update_apply]
  | world x hx hstage hev htasks =>
    have hst : s'.stamps = s.stamps := by funext i; rw [Config.stamps, htasks]; rfl
    have hline : recording.line (emitEvent "world" 1 x.env) = "world" := rfl
    obtain ⟨cur, hcur, hstamps⟩ := h.history
    obtain ⟨-, hclock⟩ : FromWorld x.env := by
      have := ht.external x hx
      rwa [if_pos hstage] at this
    -- no world emit is recorded yet
    have h0 : recording.count s.events "world" = 0 := by
      rw [hev, Recording.count_snoc, if_pos hline] at hw
      omega
    have hcur' := Recording.History.own (e := emitEvent "world" 1 x.env) hcur
      (fun m hm => by cases hm.2.1) (by exact congrArg (· + 1) h0.symm) (by
        show x.env.vclock.toStringMap.components = tick "world" (cur "world")
        rw [hcur.cur_eq_zero h0, hclock, VectorClock.components_toStringMap]
        funext k
        rw [VectorClock.get_increment, tick, Function.update_apply, VectorClock.get_new,
          VectorClock.get_new])
    refine ⟨⟨_, hev ▸ hcur', fun i => ?_⟩, fun i => ?_⟩
    · rw [hst, hline, Function.update_of_ne (hn.not_world i)]
      exact hstamps i
    · rw [hst, hev, Recording.count_snoc, hline, if_neg (hn.not_world i).symm, Nat.add_zero]
      exact h.seq i

/-! ## What the recorder writes -/

/-- A recorded event: its id is its coordinate, a message has a msg_id, a recv is its actor's, a
`world` emit has the one coordinate. -/
structure Written (e : CausalEvent) : Prop where
  id : e.id = idOf e.actor e.seq
  message : e.op = .emit ∨ e.op = .recv → ∃ m, e.msgId = mid m
  receiver : e.op = .recv → e.dst = some e.actor
  world : e.actor = "world" → e.seq = 1

theorem Records.written (hn : Named sys) (h : Records sys s s') (hw : ∀ e ∈ s.events, Written e) :
    ∀ e ∈ s'.events, Written e := by
  have hsnoc : ∀ {e}, Written e → ∀ e' ∈ s.events ++ [e], Written e' := by
    intro e he e' he'
    rcases List.mem_append.mp he' with he' | he'
    · exact hw e' he'
    · obtain rfl := List.mem_singleton.mp he'
      exact he
  cases h with
  | nothing hev => rw [hev]; exact hw
  | compute i _ _ c _ _ hev =>
    rw [hev]
    refine hsnoc ⟨rfl, fun h => ?_, (by simp), fun h => absurd h (hn.not_world i)⟩
    rcases h with h | h <;> cases h
  | emit i _ _ _ _ _ c env _ _ _ hev =>
    rw [hev]
    exact hsnoc ⟨rfl, fun _ => ⟨_, rfl⟩, (by simp), fun h => absurd h (hn.not_world i)⟩
  | recv i c env _ _ hev =>
    rw [hev]
    exact hsnoc ⟨rfl, fun _ => ⟨_, rfl⟩, fun _ => rfl, fun h => absurd h (hn.not_world i)⟩
  | world x _ _ hev => rw [hev]; exact hsnoc ⟨rfl, fun _ => ⟨_, rfl⟩, (by simp), fun _ => rfl⟩

/-- A written recv looks its emit up under its own msg_id. -/
theorem Written.wanted {e : CausalEvent} (h : Written e) {w : String} :
    e.wanted = some w ↔ e.op = .recv ∧ e.msgId = some w := by
  unfold CausalEvent.wanted
  split
  · rename_i hop
    obtain ⟨m, hm⟩ := h.message (.inr hop)
    rw [hm]
    exact (and_iff_right hop).symm
  · rename_i hop; exact iff_of_false (by simp) fun h' => hop h'.1

/-- A written recv is paired with the emits of its msg_id. -/
theorem Written.paired {a b : CausalEvent} (h : Written b) : Paired a b ↔ MessageOrder a b := by
  simp only [Paired, CausalEvent.sent_eq_some, h.wanted, MessageOrder]
  constructor
  · rintro ⟨w, ⟨ha, hma⟩, hb, hmb⟩; exact ⟨ha, hb, w, hma, hmb⟩
  · rintro ⟨ha, hb, w, hma, hmb⟩; exact ⟨w, ⟨ha, hma⟩, hb, hmb⟩

section Runs

variable [Fintype ι]

/-- What a run keeps about its log. -/
structure Account (sys : Topology ι τ α σ) (s : Config ι τ α σ) : Prop where
  addressed : Addressed sys s
  traced : Traced s
  issued : Issued s
  ledger : ∃ lost, Ledger s lost
  written : ∀ e ∈ s.events, Written e
  chronicle : recording.count s.events "world" ≤ 1 → Chronicle sys s

omit [DecidableEq ι] [DecidableEq τ] in
theorem Account.init (sys : Topology ι τ α σ) : Account sys (Config.init sys) :=
  ⟨Carries.init sys, Carries.init sys, .init sys, ⟨0, .init sys⟩, fun e he => (by cases he),
    fun _ => .init sys⟩

theorem Account.step {l : Label ι α} (hn : Named sys) (h : Account sys s) (hs : Step sys s l s') :
    Account sys s' where
  addressed := h.addressed.step hs
  traced := h.traced.step hs
  issued := h.issued.step hs
  ledger := by
    obtain ⟨lost, hl⟩ := h.ledger
    exact ⟨_, hl.step h.addressed hs⟩
  written := hs.records.written hn h.written
  chronicle := by
    intro hw
    obtain ⟨rest, hrest⟩ := hs.records.grows
    refine (h.chronicle ?_).step hn h.traced hs.records hw
    rw [← hrest, Recording.count, List.countP_append] at hw
    exact (Nat.le_add_right _ _).trans hw

theorem Run.account {ls : List (Label ι α)} (hn : Named sys) (h : Run sys ls s) :
    Account sys s :=
  Transition.Run.induct (fun hstep ha => Account.step hn ha (step_cases sys hstep)) h (.init sys)

omit [DecidableEq ι] [DecidableEq τ] in
theorem Issued.sender_unique (h : Issued s) : ∀ a ∈ s.events, ∀ a' ∈ s.events, ∀ b,
    recording.sent a b → recording.sent a' b → a = a' := by
  rintro a ha a' ha' b ⟨hop, -, m, hm, hbm⟩ ⟨hop', -, m', hm', hbm'⟩
  refine List.inj_on_of_nodup_map h.emits_nodup (List.mem_filter.mpr ⟨ha, by simpa using hop⟩)
    (List.mem_filter.mpr ⟨ha', by simpa using hop'⟩) ?_
  rw [hm, hm', ← hbm, hbm']

omit [DecidableEq ι] [DecidableEq τ] in
/-- The key of a recv is that of a recorded emit. -/
theorem Account.emit_of_recv (h : Account sys s) {r : CausalEvent} (hr : r ∈ s.events)
    (hop : r.op = .recv) : ∃ e ∈ s.events, e.op = .emit ∧ messageKey e = messageKey r := by
  obtain ⟨lost, hl⟩ := h.ledger
  have hmem : messageKey r ∈ recordedKeys .emit s.events := by
    rw [hl, add_assoc]
    refine Multiset.mem_add.mpr (.inl (Multiset.mem_coe.mpr (List.mem_map.mpr ?_)))
    exact ⟨r, List.mem_filter.mpr ⟨hr, by simpa using hop⟩, rfl⟩
  obtain ⟨e, he, hkey⟩ := List.mem_map.mp (Multiset.mem_coe.mp hmem)
  obtain ⟨he, heop⟩ := List.mem_filter.mp he
  exact ⟨e, he, by simpa using heop, hkey⟩

omit [DecidableEq ι] [DecidableEq τ] in
/-- A recorded message was sent to the actor that received it. -/
theorem Account.dst_of_message (h : Account sys s) {e r : CausalEvent} (he : e ∈ s.events)
    (hr : r ∈ s.events) (hm : MessageOrder e r) : e.dst = some r.actor := by
  obtain ⟨hop, hrop, m, hem, hrm⟩ := hm
  obtain ⟨e', he', hop', hkey⟩ := h.emit_of_recv hr hrop
  obtain rfl : e' = e := h.issued.sender_unique e' he' e he r
    ⟨hop', hrop, m, (Prod.mk.inj hkey).1.trans hrm, hrm⟩ ⟨hop, hrop, m, hem, hrm⟩
  exact (Prod.mk.inj (Prod.mk.inj hkey).2).2.trans ((h.written r hr).receiver hrop)

omit [DecidableEq ι] [DecidableEq τ] in
/-- **A history with its messages accounted for is a log `replay_log` accepts.** -/
theorem Account.accepted (h : Account sys s) (hw : recording.count s.events "world" ≤ 1) :
    Accepted s.events := by
  obtain ⟨cur, hcur, -⟩ := (h.chronicle hw).history
  refine ⟨⟨hcur.coords_nodup, ?_, ?_⟩, ?_⟩
  · have hnd := List.pairwise_filter.mp (List.pairwise_map.mp h.issued.emits_nodup)
    refine List.pairwise_filterMap.mpr (hnd.imp ?_)
    rintro a b hab w ha w' hb rfl
    obtain ⟨hop, hm⟩ := CausalEvent.sent_eq_some.mp ha
    obtain ⟨hop', hm'⟩ := CausalEvent.sent_eq_some.mp hb
    exact hab (by simpa using hop) (by simpa using hop') (hm.trans hm'.symm)
  · intro r hr w hw
    obtain ⟨hop, hm⟩ := (h.written r hr).wanted.mp hw
    obtain ⟨e, he, heop, hkey⟩ := h.emit_of_recv hr hop
    exact ⟨e, he, CausalEvent.sent_eq_some.mpr ⟨heop, (Prod.mk.inj hkey).1.trans hm⟩⟩
  · rintro a ha b hb (⟨hline, hseq⟩ | hp)
    · exact hcur.clock_lt_of_line ha hb hline hseq
    · have hm := (h.written b hb).paired.mp hp
      exact hcur.clock_lt_of_precedes h.issued.sender_unique (.single ⟨ha, hb, .inr hm⟩)

omit [DecidableEq ι] [DecidableEq τ] in
/-- Distinct coordinates give distinct ids. -/
theorem Account.ids_nodup (h : Account sys s)
    (hnd : (s.events.map fun e => (e.actor, e.seq)).Nodup) : (s.events.map (·.id)).Nodup := by
  have hids : s.events.map (·.id) =
      (s.events.map fun e => (e.actor, e.seq)).map fun c => idOf c.1 c.2 := by
    rw [List.map_map]
    exact List.map_congr_left fun e he => (h.written e he).id
  rw [hids]
  exact hnd.map fun a b hab => Prod.ext_iff.mpr (idOf_inj.mp hab)

/-! ## Counting origins -/

/-- A call of `send_external`. -/
def Label.injects : Label ι α → Bool
  | .sendExternal .. => true
  | _ => false

/-- The `send_external` calls whose emit is not recorded yet. -/
def unrecorded (ι τ α σ : Type) : Weights ι τ α σ Nat where
  task _ := 0
  mail _ := 0
  ext x := if x.stage = .record then 1 else 0

def Config.unrecorded (s : Config ι τ α σ) : Nat :=
  (s.external.map (Prod.unrecorded ι τ α σ).ext).sum

/-- The `world` emits recorded and still to be recorded. -/
def Config.origins (s : Config ι τ α σ) : Nat :=
  recording.count s.events "world" + s.unrecorded

omit [DecidableEq ι] [DecidableEq τ] [Fintype ι] in
theorem origins_frame (hev : s'.events = s.events) (hext : s'.external = s.external) :
    s'.origins = s.origins := by
  rw [Config.origins, Config.unrecorded, hev, hext]; rfl

omit [DecidableEq ι] [DecidableEq τ] [Fintype ι] in
theorem origins_act (hn : Named sys) {i : ι} {e : CausalEvent} (he : e.actor = sys.name i)
    (hev : s'.events = s.events ++ [e]) (hext : s'.external = s.external) :
    s'.origins = s.origins := by
  have hline : ¬ recording.line e = "world" := by
    intro h
    exact hn.not_world i (he.symm.trans h)
  rw [Config.origins, Config.unrecorded, hev, hext, Recording.count_snoc, if_neg hline]; rfl

omit [Fintype ι] in
theorem origins_step {l : Label ι α} (hn : Named sys) (hs : Step sys s l s') :
    s'.origins = s.origins + if l.injects then 1 else 0 := by
  cases hs with
  | @compute i => exact origins_act hn (i := i) rfl rfl rfl
  | @emit i => exact origins_act hn (i := i) rfl rfl rfl
  | @receive i => exact origins_act hn (i := i) rfl rfl rfl
  | wake | notify => exact origins_frame s.notifyOne_events s.notifyOne_external
  | sendExternal =>
    simp only [Config.origins, Config.unrecorded, List.map_append, List.sum_append]
    rfl
  | @extRecord k x hk hx =>
    have hset := sum_ext_set (unrecorded ι τ α σ) { x with stage := .count } hk
    simp only [unrecorded, hx, if_true, reduceCtorEq, if_false] at hset
    have hcount : recording.count (s.events ++ [emitEvent "world" 1 x.env]) "world" =
        recording.count s.events "world" + 1 := Recording.count_snoc ..
    simp only [Config.origins, Config.unrecorded, Config.record, unrecorded, Label.injects,
      hcount]
    simp only [Bool.false_eq_true, if_false]
    omega
  | @extCount k x hk hx =>
    have hset := sum_ext_set (unrecorded ι τ α σ) { x with stage := .deliver } hk
    simp only [unrecorded, hx, reduceCtorEq, if_false] at hset
    exact congrArg (recording.count s.events "world" + ·) hset
  | @extDeliver k x hk hx hlive | @extLost k x hk hx hgone =>
    have herase := sum_ext_erase (unrecorded ι τ α σ) hk
    simp only [unrecorded, hx, reduceCtorEq, if_false] at herase
    exact congrArg (recording.count s.events "world" + ·) herase
  | _ => exact origins_frame rfl rfl

theorem origins_of_run (hn : Named sys) : ∀ {ls : List (Label ι α)} {s : Config ι τ α σ},
    Transition.Run (step sys) s ls s' → s'.origins = s.origins + ls.countP Label.injects
  | [], _, hr => by cases hr; rfl
  | l :: ls, s, hr => by
    obtain ⟨s₁, h1, h2⟩ := Run.cons_iff.mp hr
    rw [origins_of_run hn h2, origins_step hn (step_cases sys h1), List.countP_cons]
    omega

/-- The recorded `world` emits are the calls of `send_external` past their recording. -/
theorem Run.origins {ls : List (Label ι α)} (hn : Named sys) (h : Run sys ls s) :
    recording.count s.events "world" + s.unrecorded = ls.countP Label.injects :=
  (origins_of_run hn h).trans (Nat.zero_add _)

/-! ## Which logs can be replayed -/

omit [DecidableEq ι] [DecidableEq τ] in
/-- Two recorded `world` emits have one coordinate. -/
theorem Account.coords_world (h : Account sys s)
    (hnd : (s.events.map fun e => (e.actor, e.seq)).Nodup) :
    recording.count s.events "world" ≤ 1 := by
  have hcount := List.nodup_iff_count_le_one.mp hnd ("world", 1)
  rw [List.count, List.countP_map] at hcount
  refine le_trans (le_of_eq ?_) hcount
  refine List.countP_congr fun e he => ?_
  have hw := (h.written e he).world
  simp only [Function.comp_apply, decide_eq_true_eq, beq_iff_eq, Prod.mk.injEq]
  exact ⟨fun hline => ⟨hline, hw hline⟩, fun h => h.1⟩

/-- **Which production logs can be replayed.**  The recorded events have distinct coordinates and
ids and `replay_log` accepts them exactly when at most one `send_external` call has recorded its
emit. -/
theorem accepted_iff {ls : List (Label ι α)} (hn : Named sys) (h : Run sys ls s) :
    ((s.events.map fun e => (e.actor, e.seq)).Nodup ∧ (s.events.map (·.id)).Nodup ∧
      ∃ r, replayLog s.events = .ok r) ↔ ls.countP Label.injects ≤ s.unrecorded + 1 := by
  have hacc := h.account hn
  have hcount : ls.countP Label.injects ≤ s.unrecorded + 1 ↔
      recording.count s.events "world" ≤ 1 := by
    rw [← h.origins hn]
    omega
  rw [hcount]
  constructor
  · exact fun ⟨hnd, _⟩ => hacc.coords_world hnd
  · intro hw
    have hok := hacc.accepted hw
    exact ⟨hok.wellFormed.coords, hacc.ids_nodup hok.wellFormed.coords, replayLog_ok_iff.mpr hok⟩

/-- Two origins for the lone actor, one after the other. -/
def twoOrigins : List (Label Unit Nat) :=
  [.sendExternal () 1, .external 0, .external 0, .external 0, .sendExternal () 2, .external 0,
    .external 0, .external 0]

theorem lone_named : Named lone := ⟨fun _ _ _ => rfl, fun _ => (by decide : "a" ≠ "world")⟩

theorem twoOrigins_end : ∃ s, Run lone twoOrigins s ∧ s.unrecorded = 0 ∧
    (replayLog s.events).toOption = none :=
  ⟨_, rfl, rfl, by decide⟩

/-- Both emits are `world:1`, and the log is refused. -/
theorem two_origins_rejected : ¬ ∀ ls (s : Config Unit Unit Nat Unit), Run lone ls s →
    (s.events.map fun e => (e.actor, e.seq)).Nodup ∧ (s.events.map (·.id)).Nodup ∧
      ∃ r, replayLog s.events = .ok r := by
  intro h
  obtain ⟨s, hrun, -, hnone⟩ := twoOrigins_end
  obtain ⟨-, -, r, hr⟩ := h _ s hrun
  rw [hr] at hnone
  cases hnone

theorem accepted_iff_lone : ∃ s, Run lone twoOrigins s ∧
    ¬ ((s.events.map fun e => (e.actor, e.seq)).Nodup ∧ (s.events.map (·.id)).Nodup ∧
      ∃ r, replayLog s.events = .ok r) := by
  obtain ⟨s, hrun, hun, -⟩ := twoOrigins_end
  refine ⟨s, hrun, fun h => ?_⟩
  have hcount := (accepted_iff lone_named hrun).mp h
  rw [hun] at hcount
  exact absurd hcount (by decide)

/-! ## The embedding -/

instance (m n : StringMap) : Decidable (m.components ≤ n.components) :=
  decidable_of_iff (∀ k ∈ m.keys, m.components k ≤ n.components k) ⟨fun h k => by
    by_cases hk : k ∈ m.keys
    · exact h k hk
    · rw [components_eq_zero hk]; exact Nat.zero_le _, fun h k _ => h k⟩

/-- Neither recorded clock is below the other in the product order. -/
def Incomparable (a b : CausalEvent) : Prop :=
  ¬ a.vclock.components ≤ b.vclock.components ∧ ¬ b.vclock.components ≤ a.vclock.components

instance : DecidableRel Incomparable := fun _ _ => inferInstanceAs (Decidable (_ ∧ _))

/-- **Happens-before is the order of the recorded clocks.**  With at most one `send_external`, an
event is a causal predecessor of another exactly when its vclock is strictly below, and the pairs
`replay_log` lists as concurrent are those with incomparable vclocks. -/
theorem embedding_exact {ls : List (Label ι α)} (hn : Named sys) (h : Run sys ls s)
    (h1 : ls.countP Label.injects ≤ 1) :
    (∀ a ∈ s.events, ∀ b ∈ s.events, a ≠ b →
      (CausallyBefore s.events a b ↔ a.vclock.components < b.vclock.components)) ∧
    ∃ r, replayLog s.events = .ok r ∧
      r.posetJson.concurrent = pairsWhere s.events Incomparable := by
  have hacc := h.account hn
  have hw : recording.count s.events "world" ≤ 1 := by
    have := h.origins hn
    omega
  obtain ⟨cur, hcur, -⟩ := (hacc.chronicle hw).history
  have hiff : ∀ a ∈ s.events, ∀ b ∈ s.events, a ≠ b →
      (CausallyBefore s.events a b ↔ a.vclock.components < b.vclock.components) :=
    fun a ha b hb hne => hcur.precedes_iff hacc.issued.sender_unique ha hb hne
  have hok := hacc.accepted hw
  obtain ⟨r, hr⟩ := replayLog_ok_iff.mpr hok
  refine ⟨hiff, r, hr, concurrent_eq hr _ fun i j hij => ?_⟩
  have hrel : (fun a b => a ∈ s.events ∧ b ∈ s.events ∧ (ProgramOrder a b ∨ Paired a b)) =
      fun a b => a ∈ s.events ∧ b ∈ s.events ∧ (ProgramOrder a b ∨ MessageOrder a b) := by
    funext a b
    exact propext (and_congr_right fun _ => and_congr_right fun hb => by
      rw [(hacc.written b hb).paired])
  have hne : eventAt s.events i ≠ eventAt s.events j := fun he =>
    hij.ne (eventAt_injective hok.wellFormed he)
  -- distinct events have distinct clocks, so comparable means ordered
  have hle : ∀ a ∈ s.events, ∀ b ∈ s.events, a ≠ b →
      (a.vclock.components ≤ b.vclock.components ↔ CausallyBefore s.events a b) := by
    intro a ha b hb hne
    refine ⟨fun hle => ?_, fun hab => ((hiff a ha b hb hne).mp hab).le⟩
    refine (hcur.precedes_of_le a ha b hb ?_).resolve_left hne
    rw [← hcur.counts.clock_own a ha]
    exact hle _
  rw [hrel, Incomparable, hle _ (eventAt_mem _ i) _ (eventAt_mem _ j) hne,
    hle _ (eventAt_mem _ j) _ (eventAt_mem _ i) hne.symm]
  rfl

/-- The lone actor handles its origin: the two events are ordered, and none are concurrent. -/
theorem embedding_exact_lone : ∃ s, Run lone dyingRun s ∧ s.events.length = 2 ∧ ∃ r,
    replayLog s.events = .ok r ∧ r.posetJson.concurrent = pairsWhere s.events Incomparable := by
  obtain ⟨s, hrun, hlen⟩ : ∃ s, Run lone dyingRun s ∧ s.events.length = 2 := ⟨_, rfl, rfl⟩
  exact ⟨s, hrun, hlen, (embedding_exact lone_named hrun (by decide)).2⟩

end Runs

end Lichtung.Prod
