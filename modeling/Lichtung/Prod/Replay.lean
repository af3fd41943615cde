import Lichtung.Prod.Performance
import Lichtung.Replay.Verdict

/-!
# Replaying a production run

The simulation between the concurrent executor and the sequential driver of `replay`.  The driver
moves the line of one actor at a time: its `started` first, then one receipt with the calls it
causes for every recorded recv of the timeline.  Each line stays on the way to the recorded one,
every event it produces is the recorded one, and every envelope sent and not yet received waits in
`pending`.

Principal results: `Replaying.performAll` (the calls of a handler), `Staged.recvStep` (one recorded
recv) and `Script.replay` (a script replays without divergences).
-/

namespace Lichtung

/-! ## Rebuilding the actors -/

variable {A B τ α σ : Type}

/-- The same call, on addresses of another kind. -/
def Action.mapAddr (f : A → B) : Action A α → Action B α
  | .send addr msg => .send (f addr) msg
  | .compute => .compute

/-- The same handlers, on addresses of another kind. -/
def Actor.mapAddr (f : A → B) (a : Actor A τ α σ) : Actor B τ α σ where
  msgType := a.msgType
  started s := ((a.started s).1, (a.started s).2.map (·.mapAddr f))
  handle s msg := ((a.handle s msg).1, (a.handle s msg).2.map (·.mapAddr f))

namespace Prod

open CausalHistory

variable {ι : Type} {sys : Topology ι τ α σ}

/-- An actor as it is spawned for replay. -/
def Topology.rebuilt (sys : Topology ι τ α σ) (i : ι) : TypedActor τ α σ :=
  ⟨(sys.actor i).mapAddr sys.addr, sys.init i⟩

/-- The same actors, under the same names. -/
structure Rebuilds (sys : Topology ι τ α σ) (rs : ReplaySystem τ α σ) : Prop where
  actors : ∀ i, rs.actors[sys.name i]? = some (sys.rebuilt i)
  names : ∀ a ∈ rs.actors, ∃ i, a = sys.name i

/-- Spawn the actors for replay, in the given order. -/
def Topology.respawn (sys : Topology ι τ α σ) (order : List ι) : ReplaySystem τ α σ :=
  order.foldl (fun rs i => rs.spawn (sys.name i) (sys.rebuilt i)) .new

/-- Spawning every actor rebuilds the system, in any order. -/
theorem rebuilds_of_respawn (hn : Named sys) {order : List ι} (hall : ∀ i, i ∈ order) :
    Rebuilds sys (sys.respawn order) := by
  have hfold : ∀ (order : List ι) (rs : ReplaySystem τ α σ),
      (∀ i, i ∈ order ∨ rs.actors[sys.name i]? = some (sys.rebuilt i)) →
      (∀ a ∈ rs.actors, ∃ i, a = sys.name i) →
        Rebuilds sys (order.foldl (fun rs i => rs.spawn (sys.name i) (sys.rebuilt i)) rs) := by
    intro order
    induction order with
    | nil => exact fun rs h hnames => ⟨fun i => (h i).resolve_left (by simp), hnames⟩
    | cons j order ih =>
      intro rs h hnames
      refine ih _ (fun i => ?_) fun a ha => ?_
      · by_cases hij : j = i
        · subst hij; exact .inr (by simp [ReplaySystem.spawn])
        · refine (h i).imp (fun hi => (List.mem_cons.mp hi).resolve_left (Ne.symm hij)) fun hi => ?_
          have hne : ¬ sys.name j = sys.name i := hn.injective.ne hij
          simpa [ReplaySystem.spawn, Std.ExtTreeMap.getElem?_insert, hne] using hi
      · have ha : a ∈ rs.actors.insert (sys.name j) (sys.rebuilt j) := ha
        rw [Std.ExtTreeMap.mem_insert, Std.LawfulEqCmp.compare_eq_iff_eq] at ha
        rcases ha with rfl | ha
        · exact ⟨j, rfl⟩
        · exact hnames a ha
  exact hfold order .new (fun i => .inl (hall i)) fun a ha => by
    simp [ReplaySystem.new] at ha

theorem Rebuilds.keys {rs : ReplaySystem τ α σ} (h : Rebuilds sys rs) :
    ∀ a ∈ rs.actors.keys, ∃ i, a = sys.name i := by
  intro a ha
  exact h.names a (Std.ExtTreeMap.mem_keys.mp ha)

theorem Rebuilds.origin {rs : ReplaySystem τ α σ} (h : Rebuilds sys rs) (addr : Addr τ) (msg : α) :
    Rebuilds sys (rs.origin addr msg) := ⟨h.actors, h.names⟩

/-- The recorder writes plain msg_ids. -/
theorem Account.plain [Fintype ι] {s : Config ι τ α σ} (h : Account sys s) {e : CausalEvent}
    (he : e ∈ s.events) (hop : e.op = .emit ∨ e.op = .recv) : e.PlainMid := by
  obtain ⟨k, hk⟩ := (h.written e he).message hop
  exact fun w hw => ⟨k, hk.symm.trans hw⟩

/-! ## The script of a replay -/

/-- The envelopes sent on a line, and the origin. -/
def SentBy (L : ι → Line ι τ α σ) (origin : Option (Envelope τ α)) (env : Envelope τ α) : Prop :=
  (∃ i, env ∈ (L i).sent) ∨ env ∈ origin

/-- What a recorded log prescribes: complete lines, the index entries of their events, and at most
one origin. -/
structure Script (sys : Topology ι τ α σ) (log : List CausalEvent) (L : ι → Line ι τ α σ)
    (origin : Option (Envelope τ α)) : Prop where
  path : ∀ i, Line.Path sys i (.start sys i) (L i)
  settled : ∀ i, (L i).rest = []
  recorded : ∀ i, ∀ e ∈ (L i).events, (RecordedIndex.build log).byId e.id = some e
  emits : ∀ i, (RecordedIndex.build log).emitsByActor (sys.name i) =
    (L i).events.filter (·.op = .emit)
  world : (RecordedIndex.build log).emitsByActor "world" =
    origin.toList.map (emitEvent "world" 1)
  mids : ∀ env, SentBy L origin env → env.msgId < 2 ^ 64
  distinct : ∀ env env', SentBy L origin env → SentBy L origin env' → env.msgId = env'.msgId →
    env = env'
  received : ∀ i, ∀ env ∈ (L i).received, SentBy L origin env
  covers : ∀ e ∈ log, (∃ i, e ∈ (L i).events) ∨ ∃ env ∈ origin, e = emitEvent "world" 1 env

/-- The state of a replay without divergences, which has brought the lines to `x` and walked the
events `done`. -/
structure Replaying (sys : Topology ι τ α σ) (log : List CausalEvent) (L : ι → Line ι τ α σ)
    (origin : Option (Envelope τ α)) (done : List CausalEvent) (x : ι → Line ι τ α σ)
    (clocks : ActorId → Stamps) (s : ReplayState τ α) : Prop where
  start : ∀ i, Line.Path sys i (.start sys i) (x i)
  path : ∀ i, Line.Path sys i (x i) (L i)
  clocks : ∀ i, clocks (sys.name i) = (x i).stamps
  recorded : s.recorded = .build log
  silent : s.divergences = []
  sends : ∀ i, s.sendCount (sys.name i) = (x i).sent.length
  produced : ∀ i, ∀ e ∈ (x i).events, e.id ∈ s.produced
  seeded : ∀ env ∈ origin, idOf "world" 1 ∈ s.produced
  walked : ∀ i, (x i).events.filter (·.op = .recv) =
    done.filter fun e => e.op = .recv ∧ e.actor = sys.name i
  pending : ∀ env, SentBy x origin env →
    (∀ ev ∈ done, ev.op = .recv → ev.msgId ≠ mid env.msgId) → s.pending env.msgId = some env

/-- An event found in the index is verified silently. -/
theorem verify_recorded {s : ReplayState τ α} {e : CausalEvent}
    (h : s.recorded.byId e.id = some e) : (s.verify e).divergences = s.divergences := by
  simp [ReplayState.verify, ReplayState.mismatch, h]

section Calls

variable [DecidableEq ι] {log : List CausalEvent} {L : ι → Line ι τ α σ}
  {origin : Option (Envelope τ α)} {done : List CausalEvent} {x : ι → Line ι τ α σ}
  {clocks : ActorId → Stamps} {s : ReplayState τ α}

omit [DecidableEq ι] in
theorem SentBy.mono {x y : ι → Line ι τ α σ} {env : Envelope τ α} (h : SentBy x origin env)
    (hxy : ∀ i, (x i).Grows (y i)) : SentBy y origin env :=
  h.imp_left fun ⟨i, hi⟩ => ⟨i, (hxy i).sent.subset hi⟩

omit [DecidableEq ι] in
/-- The `j`-th send of an actor finds the `j`-th recorded emit of its line. -/
theorem Script.next_mid (hS : Script sys log L origin) {i : ι} {x y : Line ι τ α σ}
    {e : CausalEvent} {env : Envelope τ α} (hx : Line.Path sys i (.start sys i) x)
    (hy : Line.Path sys i y (L i)) (hev : y.events = x.events ++ [e]) (hop : e.op = .emit)
    (hmid : e.msgId = mid env.msgId) (henv : env.msgId < 2 ^ 64) :
    ((RecordedIndex.build log).emitsByActor (sys.name i))[x.sent.length]?.bind
      CausalEvent.parsedMid = some env.msgId := by
  have hlen : (x.events.filter (·.op = .emit)).length = x.sent.length := by
    have := congrArg List.length hx.consistent.emits
    rwa [List.length_map, List.length_map] at this
  have hpre : x.events.filter (·.op = .emit) ++ [e] <+: (L i).events.filter (·.op = .emit) := by
    have := hy.grows.events.filter (fun e => decide (e.op = .emit))
    rwa [hev, List.filter_append, List.filter_cons, if_pos (by simpa using hop),
      List.filter_nil] at this
  obtain ⟨rest, hrest⟩ := hpre
  rw [hS.emits, ← hrest, List.append_assoc, List.getElem?_append_right (le_of_eq hlen), hlen,
    Nat.sub_self]
  exact CausalEvent.parsedMid_mid hmid henv

/-- One more event of one line, verified. -/
theorem Replaying.advance (hn : Named sys) (h : Replaying sys log L origin done x clocks s)
    {i : ι} {y : Line ι τ α σ} {e : CausalEvent} {s' : ReplayState τ α} {done' : List CausalEvent}
    (hstep : Line.Step sys i (x i) y) (hpath : Line.Path sys i y (L i))
    (hev : y.events = (x i).events ++ [e]) (hrec : s'.recorded = s.recorded)
    (hsil : s'.divergences = s.divergences)
    (hsend : s'.sendCount = Function.update s.sendCount (sys.name i) y.sent.length)
    (hprod : s'.produced = insert e.id s.produced)
    (hwalk : ∀ j, (done'.filter fun f => f.op = .recv ∧ f.actor = sys.name j) =
      (done.filter fun f => f.op = .recv ∧ f.actor = sys.name j) ++
        if j = i ∧ e.op = .recv then [e] else [])
    (hpend : ∀ env, SentBy (Function.update x i y) origin env →
      (∀ ev ∈ done', ev.op = .recv → ev.msgId ≠ mid env.msgId) →
        s'.pending env.msgId = some env) :
    Replaying sys log L origin done' (Function.update x i y)
      (Function.update clocks (sys.name i) y.stamps) s' where
  start := by
    intro j
    by_cases hij : j = i
    · subst hij; rw [Function.update_self]; exact (h.start j).tail hstep
    · rw [Function.update_of_ne hij]; exact h.start j
  path := by
    intro j
    by_cases hij : j = i
    · subst hij; rw [Function.update_self]; exact hpath
    · rw [Function.update_of_ne hij]; exact h.path j
  clocks := by
    intro j
    by_cases hij : j = i
    · subst hij; rw [Function.update_self, Function.update_self]
    · rw [Function.update_of_ne (hn.injective.ne hij), Function.update_of_ne hij]
      exact h.clocks j
  recorded := hrec.trans h.recorded
  silent := hsil.trans h.silent
  sends := by
    intro j
    rw [hsend]
    by_cases hij : j = i
    · subst hij; rw [Function.update_self, Function.update_self]
    · rw [Function.update_of_ne (hn.injective.ne hij), Function.update_of_ne hij]
      exact h.sends j
  produced := by
    intro j f hf
    rw [hprod]
    by_cases hij : j = i
    · subst hij
      rw [Function.update_self, hev] at hf
      rcases List.mem_append.mp hf with hf | hf
      · exact Finset.mem_insert_of_mem (h.produced j f hf)
      · obtain rfl := List.mem_singleton.mp hf
        exact Finset.mem_insert_self ..
    · rw [Function.update_of_ne hij] at hf
      exact Finset.mem_insert_of_mem (h.produced j f hf)
  seeded := by
    intro env henv
    rw [hprod]; exact Finset.mem_insert_of_mem (h.seeded env henv)
  walked := by
    intro j
    rw [hwalk, ← h.walked j]
    by_cases hij : j = i
    · subst hij
      rw [Function.update_self, hev, List.filter_append]
      by_cases hop : e.op = .recv <;> simp [hop]
    · rw [Function.update_of_ne hij, if_neg fun h => hij h.1, List.append_nil]
  pending := hpend

/-- **One call of a handler**: it makes the recorded event. -/
theorem Replaying.perform (hn : Named sys) (hS : Script sys log L origin)
    (h : Replaying sys log L origin done x clocks s) {i : ι} {a : Action ι α}
    {as : List (Action ι α)} (hrest : (x i).rest = a :: as) :
    ∃ y : Line ι τ α σ, y.rest = as ∧ y.state = (x i).state ∧
      y.stamps = (Context.perform (sys.name i) (a.mapAddr sys.addr) (x i).stamps
        (⟨s, sys.name i⟩ : ReplayDispatch τ α)).1 ∧
      Replaying sys log L origin done (Function.update x i y)
        (Function.update clocks (sys.name i) y.stamps)
        (Context.perform (sys.name i) (a.mapAddr sys.addr) (x i).stamps
          (⟨s, sys.name i⟩ : ReplayDispatch τ α)).2.state := by
  obtain ⟨y, hstep, hpath⟩ := (h.path i).next (hS.settled i) (by rw [hrest]; simp)
  have hrecorded : ∀ e ∈ y.events, s.recorded.byId e.id = some e := by
    intro e he
    rw [h.recorded]; exact hS.recorded i e (hpath.grows.events.subset he)
  have hwalk : ∀ (e : CausalEvent), e.op ≠ .recv → ∀ j,
      (done.filter fun f => f.op = .recv ∧ f.actor = sys.name j) =
        (done.filter fun f => f.op = .recv ∧ f.actor = sys.name j) ++
          if j = i ∧ e.op = .recv then [e] else [] := by
    intro e he j
    rw [if_neg fun h => he h.2, List.append_nil]
  have hsent : ∀ {env : Envelope τ α}, SentBy (Function.update x i y) origin env →
      env ∈ y.sent ∨ SentBy x origin env := by
    rintro env (⟨j, hj⟩ | horigin)
    · by_cases hij : j = i
      · subst hij; rw [Function.update_self] at hj; exact .inl hj
      · rw [Function.update_of_ne hij] at hj; exact .inr (.inl ⟨j, hj⟩)
    · exact .inr (.inr horigin)
  cases hstep with
  | compute rest c hrest' hc =>
    cases hrest.symm.trans hrest'
    subst hc
    refine ⟨_, ?_, ?_, ?_, h.advance hn (.compute _ _ hrest' rfl) hpath rfl rfl ?_ ?_ rfl
      (hwalk _ (by simp)) ?_⟩
    · rfl
    · rfl
    · rfl
    · exact verify_recorded (hrecorded _ (by simp))
    · rw [← h.sends i]; exact (Function.update_eq_self ..).symm
    · exact fun env henv => h.pending env ((hsent henv).elim (fun h => .inl ⟨i, h⟩) id)
  | send addr msg rest c m env hrest' hc henv =>
    cases hrest.symm.trans hrest'
    have hm : env.msgId = m := by rw [henv]; rfl
    have hfinal : ∀ env', SentBy x origin env' ∨ env' = env → SentBy L origin env' := by
      rintro env' (henv' | rfl)
      · exact henv'.mono fun j => (h.path j).grows
      · exact .inl ⟨i, hpath.grows.sent.subset (by simp)⟩
    -- the recorded emit of this send supplies its msg_id
    have hmid : (emitEvent (sys.name i) c.seq env).msgId = mid env.msgId := rfl
    have hnext := hS.next_mid (h.start i) hpath rfl rfl hmid (hS.mids env (hfinal env (.inr rfl)))
    rw [← h.recorded, ← h.sends i] at hnext
    have hsend : Context.send (sys.name i) (sys.addr addr) msg (x i).stamps
        (⟨s, sys.name i⟩ : ReplayDispatch τ α) = (c, ⟨({ s with
          sendCount := Function.update s.sendCount (sys.name i) (s.sendCount (sys.name i) + 1)
            }.verify (emitEvent (sys.name i) c.seq env)).deliver env, sys.name i⟩) := by
      subst hc
      rw [send_recorded hnext, hm, henv]
    simp only [Action.mapAddr, Context.perform, hsend]
    refine ⟨_, ?_, ?_, ?_, h.advance hn (.send _ _ _ _ m _ hrest' hc henv) hpath rfl rfl ?_ ?_ rfl
      (hwalk _ (by simp)) ?_⟩
    · rfl
    · rfl
    · rfl
    · exact verify_recorded (hrecorded (emitEvent (sys.name i) c.seq env) (by simp))
    · rw [List.length_append, ← h.sends i]; rfl
    · intro env' henv' hdone
      show Function.update s.pending env.msgId (some env) env'.msgId = some env'
      by_cases heq : env'.msgId = env.msgId
      · have hsame : env' = env := by
          refine hS.distinct env' env (hfinal env' ?_) (hfinal env (.inr rfl)) heq
          rcases hsent henv' with hin | hin
          · rcases List.mem_append.mp hin with hin | hin
            · exact .inl (.inl ⟨i, hin⟩)
            · exact .inr (List.mem_singleton.mp hin)
          · exact .inl hin
        rw [hsame, Function.update_self]
      · rw [Function.update_of_ne heq]
        refine h.pending env' ?_ hdone
        rcases hsent henv' with hin | hin
        · rcases List.mem_append.mp hin with hin | hin
          · exact .inl ⟨i, hin⟩
          · exact absurd (congrArg Envelope.msgId (List.mem_singleton.mp hin)) heq
        · exact hin
  | recv env c hrest' => rw [hrest] at hrest'; cases hrest'

/-- **The calls of a handler**, to the last. -/
theorem Replaying.performAll (hn : Named sys) (hS : Script sys log L origin) {i : ι} :
    ∀ {as : List (Action ι α)} {x : ι → Line ι τ α σ} {clocks : ActorId → Stamps}
      {s : ReplayState τ α}, Replaying sys log L origin done x clocks s → (x i).rest = as →
      ∃ y : Line ι τ α σ, y.rest = [] ∧ y.state = (x i).state ∧
        y.stamps = (Context.performAll (sys.name i) (as.map (·.mapAddr sys.addr)) (x i).stamps
          (⟨s, sys.name i⟩ : ReplayDispatch τ α)).1 ∧
        Replaying sys log L origin done (Function.update x i y)
          (Function.update clocks (sys.name i) y.stamps)
          (Context.performAll (sys.name i) (as.map (·.mapAddr sys.addr)) (x i).stamps
            (⟨s, sys.name i⟩ : ReplayDispatch τ α)).2.state
  | [], x, clocks, s, h, hrest => by
    refine ⟨x i, hrest, rfl, rfl, ?_⟩
    rw [← h.clocks i, Function.update_eq_self, Function.update_eq_self]
    exact h
  | a :: as, x, clocks, s, h, hrest => by
    obtain ⟨y, hyrest, hystate, hystamps, hy⟩ := h.perform hn hS hrest
    have hnext : (Function.update x i y i).rest = as := by rw [Function.update_self]; exact hyrest
    obtain ⟨z, hzrest, hzstate, hzstamps, hz⟩ := hy.performAll hn hS hnext
    rw [Function.update_self] at hzstate hzstamps hz
    rw [Function.update_idem, Function.update_idem] at hz
    rw [List.map_cons, Context.performAll, perform_snd, ← hystamps]
    exact ⟨z, hzrest, hzstate.trans hystate, hzstamps, hz⟩

end Calls

/-! ## The timeline -/

/-- A timeline of the log: the recvs of each line in order, causes first, every message received
once. -/
structure Canonical (sys : Topology ι τ α σ) (log : List CausalEvent) (L : ι → Line ι τ α σ)
    (timeline : List CausalEvent) : Prop where
  nodup : timeline.Nodup
  mem : ∀ e, e ∈ timeline ↔ e ∈ log
  lines : ∀ i, ∀ e ∈ (L i).events, e ∈ log
  recvs : ∀ i, (timeline.filter fun e => e.op = .recv ∧ e.actor = sys.name i) =
    (L i).events.filter (·.op = .recv)
  causes : timeline.Pairwise fun a b => ¬ (ProgramOrder b a ∨ Paired b a)
  once : ∀ r ∈ log, ∀ r' ∈ log, r.op = .recv → r'.op = .recv → r.msgId = r'.msgId → r = r'

section Loop

variable {log : List CausalEvent} {L : ι → Line ι τ α σ} {origin : Option (Envelope τ α)}
  {timeline done todo : List CausalEvent} {ev : CausalEvent} {x : ι → Line ι τ α σ}
  {clocks : ActorId → Stamps} {s : ReplayState τ α}

/-- What causes an event walked has been walked. -/
theorem Canonical.mem_done (hT : Canonical sys log L (done ++ todo)) {a b : CausalEvent}
    (ha : a ∈ log) (hb : b ∈ done) (hab : ProgramOrder a b ∨ Paired a b) : a ∈ done := by
  rcases List.mem_append.mp ((hT.mem a).mpr ha) with h | h
  · exact h
  · exact absurd hab ((List.pairwise_append.mp hT.causes).2.2 b hb a h)

/-- The emit of an envelope about to be received has been re-produced: its line is past it. -/
theorem Replaying.sent_of_recv (hS : Script sys log L origin)
    (hT : Canonical sys log L (done ++ ev :: todo))
    (h : Replaying sys log L origin done x clocks s) (hidle : ∀ i, (x i).rest = [])
    {env : Envelope τ α} (hop : ev.op = .recv) (hmid : ev.msgId = mid env.msgId)
    (henv : SentBy L origin env) : SentBy x origin env := by
  rcases henv with ⟨j, hj⟩ | horigin
  · rcases (h.path j).idle (hidle j) with heq | ⟨env', c, y, hstep, hpath, -, -, hevents, -⟩
    · exact .inl ⟨j, heq ▸ hj⟩
    · obtain ⟨r, hr⟩ : ∃ r, r = recvEvent (sys.name j) c.seq c.clock c.lamport.val env' := ⟨_, rfl⟩
      rw [← hr] at hevents
      have hrop : r.op = .recv := by rw [hr]; rfl
      obtain ⟨seq, he⟩ := (hS.path j).consistent.emitted env hj
      obtain ⟨rest, hrest⟩ := hpath.grows.events
      rw [hevents, List.append_assoc, List.singleton_append] at hrest
      rw [← hrest] at he
      rcases List.mem_append.mp he with he | he
      · -- the emit is on the line so far
        have hmem : mid env.msgId ∈ ((x j).events.filter (·.op = .emit)).map (·.msgId) :=
          List.mem_map.mpr ⟨_, List.mem_filter.mpr ⟨he, by simp⟩, rfl⟩
        rw [(h.start j).consistent.emits] at hmem
        obtain ⟨env'', hin, hmid'⟩ := List.mem_map.mp hmem
        have hsame : env'' = env := hS.distinct env'' env
          (.inl ⟨j, (h.path j).grows.sent.subset hin⟩) (.inl ⟨j, hj⟩) (mid_inj.mp hmid')
        exact .inl ⟨j, hsame ▸ hin⟩
      · -- else the line receives `r` first, and `r` is walked before `ev`
        exfalso
        have hpair := (hS.path j).consistent.pairwise
        rw [← hrest] at hpair
        obtain ⟨hx, hrpair, hxr⟩ := List.pairwise_append.mp hpair
        have he' : emitEvent (sys.name j) seq env ∈ rest := by
          rcases List.mem_cons.mp he with heq | he
          · rw [← heq] at hrop; cases hrop
          · exact he
        have hlog : ∀ e ∈ r :: rest, e ∈ log ∧ e.actor = sys.name j := by
          intro e he
          have hmem : e ∈ (L j).events := by rw [← hrest]; exact List.mem_append_right _ he
          exact ⟨hT.lines j e hmem, (hS.path j).consistent.actor e hmem⟩
        have hpaired : Paired (emitEvent (sys.name j) seq env) ev := by
          refine MessageOrder.paired ⟨rfl, hop, "m" ++ env.msgId.repr, rfl, hmid⟩
        have hedone : emitEvent (sys.name j) seq env ∈ done := by
          have hsplit : done ++ ev :: todo = (done ++ [ev]) ++ todo := by simp
          have hT' := hT
          rw [hsplit] at hT'
          have := hT'.mem_done (hlog _ (List.mem_cons_of_mem _ he')).1
            (List.mem_append_right _ (List.mem_singleton.mpr rfl)) (.inr hpaired)
          rcases List.mem_append.mp this with h | h
          · exact h
          · rw [← List.mem_singleton.mp h] at hop; cases hop
        have hrdone : r ∈ done := hT.mem_done (hlog r (List.mem_cons_self ..)).1 hedone
          (.inl ⟨(hlog r (List.mem_cons_self ..)).2.trans
            (hlog _ (List.mem_cons_of_mem _ he')).2.symm, (List.pairwise_cons.mp hrpair).1 _ he'⟩)
        have hrx : r ∈ (x j).events.filter (·.op = .recv) := by
          rw [h.walked j]
          exact List.mem_filter.mpr ⟨hrdone, by simp [hrop, (hlog r (List.mem_cons_self ..)).2]⟩
        exact Nat.lt_irrefl _ (hxr r (List.mem_of_mem_filter hrx) r (List.mem_cons_self ..))
  · exact .inr horigin

/-- The envelope of the next recorded recv waits in `pending`. -/
theorem Replaying.pending_of_recv (hS : Script sys log L origin)
    (hT : Canonical sys log L (done ++ ev :: todo))
    (h : Replaying sys log L origin done x clocks s) (hidle : ∀ i, (x i).rest = [])
    {env : Envelope τ α} (hop : ev.op = .recv) (hmid : ev.msgId = mid env.msgId)
    (henv : SentBy L origin env) : s.pending env.msgId = some env := by
  refine h.pending env (h.sent_of_recv hS hT hidle hop hmid henv) fun r hr hrop heq => ?_
  have hlog : ∀ e ∈ done ++ ev :: todo, e ∈ log := fun e he => (hT.mem e).mp he
  -- a recv already walked with this msg_id would be `ev` itself
  obtain rfl : r = ev := hT.once r (hlog r (List.mem_append_left _ hr)) ev (hlog ev (by simp)) hrop
    hop (heq.trans hmid.symm)
  exact (List.nodup_append'.mp hT.nodup).2.2 hr (List.mem_cons_self ..)

/-- The next recorded recv is the next event of its line. -/
theorem Replaying.next_recv (hS : Script sys log L origin)
    (hT : Canonical sys log L (done ++ ev :: todo))
    (h : Replaying sys log L origin done x clocks s) (hidle : ∀ i, (x i).rest = [])
    (hop : ev.op = .recv) : ∃ i env c y, Line.Step sys i (x i) y ∧ Line.Path sys i y (L i) ∧
      env.msg.typeId = (sys.actor i).msgType ∧ c = (x i).stamps.receive (sys.name i) env ∧
      y.events = (x i).events ++ [recvEvent (sys.name i) c.seq c.clock c.lamport.val env] ∧
      y.sent = (x i).sent ∧ y.received = (x i).received ++ [env] ∧ y.stamps = c ∧
      (sys.actor i).handle (x i).state env.msg.val = (y.state, y.rest) ∧
      ev = recvEvent (sys.name i) c.seq c.clock c.lamport.val env := by
  have hlog : ev ∈ log := (hT.mem ev).mp (by simp)
  rcases hS.covers ev hlog with ⟨i, hi⟩ | ⟨env, -, rfl⟩
  · have hactor : ev.actor = sys.name i := (hS.path i).consistent.actor ev hi
    -- the recvs of the line: those walked, `ev`, and later ones
    have hrecvs := hT.recvs i
    rw [List.filter_append, ← h.walked i, List.filter_cons, if_pos (by simp [hop, hactor])] at hrecvs
    rcases (h.path i).idle (hidle i) with heq | ⟨env, c, y, hstep, hpath, htype, hc, hevents, hrest⟩
    · rw [heq] at hrecvs
      simpa using congrArg List.length hrecvs
    · have hpre := hpath.grows.events.filter (fun e => decide (e.op = .recv))
      rw [hevents, List.filter_append, ← hrecvs, List.prefix_append_right_inj] at hpre
      obtain ⟨rest, hrest'⟩ := hpre
      have hev : recvEvent (sys.name i) c.seq c.clock c.lamport.val env = ev := by
        simpa using (List.cons.inj hrest').1
      exact ⟨i, env, c, y, hstep, hpath, htype, hc, hevents, hrest.1, hrest.2.1, hrest.2.2.1,
        hrest.2.2.2, hev.symm⟩
  · cases hop

/-- Events that are no recv are passed over. -/
theorem Replaying.skip (h : Replaying sys log L origin done x clocks s) (hop : ev.op ≠ .recv) :
    Replaying sys log L origin (done ++ [ev]) x clocks s :=
  { h with
    walked := fun i => by rw [h.walked i, List.filter_append]; simp [hop]
    pending := fun env henv hdone =>
      h.pending env henv fun r hr => hdone r (List.mem_append_left _ hr) }

end Loop

/-! ## The driver -/

section Driving

variable [DecidableEq ι] [DecidableEq τ] {log : List CausalEvent} {L : ι → Line ι τ α σ}
  {origin : Option (Envelope τ α)} {todo done : List CausalEvent} {ev : CausalEvent}
  {names : List ActorId} {x : ι → Line ι τ α σ} {d : Driver τ α σ}

/-- The driver with the actors of `names` still to be started, and the others between two
messages. -/
structure Staged (sys : Topology ι τ α σ) (log : List CausalEvent) (L : ι → Line ι τ α σ)
    (origin : Option (Envelope τ α)) (names : List ActorId) (done : List CausalEvent)
    (x : ι → Line ι τ α σ) (d : Driver τ α σ) : Prop where
  state : Replaying sys log L origin done x d.clocks d.state
  waiting : ∀ i, sys.name i ∈ names →
    x i = .start sys i ∧ d.actors[sys.name i]? = some (sys.rebuilt i)
  ready : ∀ i, sys.name i ∉ names → (x i).rest = [] ∧
    d.actors[sys.name i]? = some ⟨(sys.actor i).mapAddr sys.addr, (x i).state⟩

/-- Run one actor on the calls its line goes on with. -/
theorem Replaying.drive (hn : Named sys) (hS : Script sys log L origin) {i : ι}
    (h : Replaying sys log L origin done x d.clocks d.state) {t : TypedActor τ α σ}
    (msg : Option (Boxed τ α)) (ht : d.actors[sys.name i]? = some t)
    (hinv : Driver.invoke t msg =
      some ((x i).state, (x i).rest.map (·.mapAddr sys.addr))) :
    ∃ y d', d.drive (sys.name i) msg = .ok d' ∧ y.rest = [] ∧
      Replaying sys log L origin done (Function.update x i y) d'.clocks d'.state ∧
      d'.actors = d.actors.insert (sys.name i) ⟨t.actor, y.state⟩ := by
  obtain ⟨y, hrest, hstate, hstamps, hy⟩ := h.performAll hn hS (i := i) rfl
  rw [← h.clocks i] at hstamps hy
  refine ⟨y, _, by rw [Driver.drive, ht]; dsimp only; rw [hinv], hrest, ?_, by rw [hstate]⟩
  rw [hstamps] at hy
  exact hy

omit [DecidableEq τ] in
/-- Running one actor leaves every other actor as it was. -/
theorem ready_update (hn : Named sys) {d d' : Driver τ α σ} {i : ι} {y : Line ι τ α σ}
    (hrest : y.rest = [])
    (hactors : d'.actors =
      d.actors.insert (sys.name i) ⟨(sys.actor i).mapAddr sys.addr, y.state⟩) (j : ι)
    (h : j ≠ i → (x j).rest = [] ∧
      d.actors[sys.name j]? = some ⟨(sys.actor j).mapAddr sys.addr, (x j).state⟩) :
    (Function.update x i y j).rest = [] ∧ d'.actors[sys.name j]? =
      some ⟨(sys.actor j).mapAddr sys.addr, (Function.update x i y j).state⟩ := by
  by_cases hij : j = i
  · subst hij
    rw [Function.update_self, hactors, Std.ExtTreeMap.getElem?_insert_self]
    exact ⟨hrest, rfl⟩
  · have hne : ¬ sys.name i = sys.name j := hn.injective.ne (Ne.symm hij)
    rw [Function.update_of_ne hij, hactors, Std.ExtTreeMap.getElem?_insert]
    simpa [hne] using h hij

/-- **The `started` pass.** -/
theorem Staged.startAll (hn : Named sys) (hS : Script sys log L origin) :
    ∀ {names : List ActorId} {x : ι → Line ι τ α σ} {d : Driver τ α σ}, names.Nodup →
      (∀ a ∈ names, ∃ i, a = sys.name i) → Staged sys log L origin names [] x d →
        ∃ y d', Driver.startAll names d = .ok d' ∧ Staged sys log L origin [] [] y d'
  | [], x, d, _, _, h => ⟨x, d, rfl, h⟩
  | a :: names, x, d, hnd, hnames, h => by
    obtain ⟨i, rfl⟩ := hnames a (List.mem_cons_self ..)
    obtain ⟨hfresh, hnd⟩ := List.nodup_cons.mp hnd
    obtain ⟨hstart, hactor⟩ := h.waiting i (List.mem_cons_self ..)
    obtain ⟨y, d₁, hdrive, hrest, hy, hactors⟩ := h.state.drive hn hS none hactor (by
      rw [hstart]; rfl)
    have hnext : Staged sys log L origin names [] (Function.update x i y) d₁ := by
      refine ⟨hy, fun j hj => ?_, fun j hj => ?_⟩
      · have hij : j ≠ i := by rintro rfl; exact hfresh hj
        have hne : ¬ sys.name i = sys.name j := hn.injective.ne (Ne.symm hij)
        rw [Function.update_of_ne hij, hactors, Std.ExtTreeMap.getElem?_insert]
        simpa [hne] using h.waiting j (List.mem_cons_of_mem _ hj)
      · refine ready_update hn hrest hactors j fun hij => h.ready j ?_
        have hne : ¬ sys.name j = sys.name i := hn.injective.ne hij
        simp [hne, hj]
    obtain ⟨z, d', hstarts, hz⟩ :=
      hnext.startAll hn hS hnd fun a ha => hnames a (List.mem_cons_of_mem _ ha)
    exact ⟨z, d', by rw [Driver.startAll, hdrive]; exact hstarts, hz⟩

/-- **One turn of the recv loop.** -/
theorem Staged.recvStep (hn : Named sys) (hS : Script sys log L origin)
    (hT : Canonical sys log L (done ++ ev :: todo)) (h : Staged sys log L origin [] done x d) :
    ∃ y d', d.recvStep ev = .ok d' ∧ Staged sys log L origin [] (done ++ [ev]) y d' := by
  have hidle : ∀ i, (x i).rest = [] := fun i => (h.ready i (by simp)).1
  by_cases hop : ev.op = .recv
  · obtain ⟨i, env, c, y, hstep, hpath, htype, hc, hevents, hsent, hreceived, hstamps, hhandle,
      hev⟩ := h.state.next_recv hS hT hidle hop
    have hactor : ev.actor = sys.name i := by rw [hev]; rfl
    have hmid : ev.msgId = mid env.msgId := by rw [hev]; rfl
    have henv : SentBy L origin env := hS.received i env (hpath.grows.received.subset (by
      rw [hreceived]; simp))
    have hparsed := CausalEvent.parsedMid_mid hmid (hS.mids env henv)
    have hpending := h.state.pending_of_recv hS hT hidle hop hmid henv
    -- the recv-stamp is the recorded event
    have hstampRecv : Driver.stampRecv { d with state := d.state.consume ev env.msgId env }
        (sys.name i) env = { d with
          clocks := Function.update d.clocks (sys.name i) y.stamps
          state := (d.state.consume ev env.msgId env).verify ev } := by
      simp only [Driver.stampRecv, h.state.clocks i, ← hc, hstamps, ← hev]
    have hsentBy : ∀ {env' : Envelope τ α}, SentBy (Function.update x i y) origin env' →
        SentBy x origin env' := by
      rintro env' (⟨j, hj⟩ | horigin)
      · by_cases hij : j = i
        · subst hij; rw [Function.update_self, hsent] at hj; exact .inl ⟨j, hj⟩
        · rw [Function.update_of_ne hij] at hj; exact .inl ⟨j, hj⟩
      · exact .inr horigin
    have hstate : Replaying sys log L origin (done ++ [ev]) (Function.update x i y)
        (Function.update d.clocks (sys.name i) y.stamps)
        ((d.state.consume ev env.msgId env).verify ev) := by
      refine h.state.advance hn hstep hpath (hev ▸ hevents) rfl ?_ ?_ rfl (fun j => ?_) ?_
      · apply verify_recorded
        show d.state.recorded.byId ev.id = some ev
        rw [h.state.recorded]
        exact hS.recorded i ev (hpath.grows.events.subset (by rw [hevents, ← hev]; simp))
      · rw [hsent, ← h.state.sends i]; exact (Function.update_eq_self ..).symm
      · rw [List.filter_append]
        by_cases hij : j = i
        · subst hij; simp [hop, hactor]
        · have hne : ¬ sys.name i = sys.name j := hn.injective.ne (Ne.symm hij)
          simp [hij, hactor, hne]
      · intro env' henv' hdone
        have hne : env'.msgId ≠ env.msgId := fun heq =>
          hdone ev (by simp) hop (by rw [hmid, heq])
        show Function.update d.state.pending env.msgId none env'.msgId = some env'
        rw [Function.update_of_ne hne]
        exact h.state.pending env' (hsentBy henv') fun r hr =>
          hdone r (List.mem_append_left _ hr)
    have ht := (h.ready i (by simp)).2
    obtain ⟨z, d', hdrive, hrest, hz, hactors⟩ := Replaying.drive hn hS (i := i)
      (d := { d with
        clocks := Function.update d.clocks (sys.name i) y.stamps
        state := (d.state.consume ev env.msgId env).verify ev }) hstate (some env.msg) ht (by
        rw [Function.update_self]
        simp only [Driver.invoke, Actor.mapAddr, htype, if_true, hhandle])
    rw [Function.update_idem] at hz
    refine ⟨_, d', ?_, hz, fun j hj => by simp at hj, fun j _ => ?_⟩
    · have hmem : sys.name i ∈ d.actors := (getElem_of_getElem? ht).1
      rw [Driver.recvStep, if_neg (not_not.mpr hop)]
      simp only [hparsed, hpending, hactor, hstampRecv]
      rw [if_neg (not_not.mpr hmem)]
      exact hdrive
    · exact ready_update hn hrest hactors j fun _ => h.ready j (by simp)
  · refine ⟨x, d, by rw [Driver.recvStep, if_pos hop], h.state.skip hop, ?_, h.ready⟩
    exact fun i hi => by simp at hi

/-- The recv loop. -/
theorem Staged.recvLoop (hn : Named sys) (hS : Script sys log L origin) :
    ∀ {todo done : List CausalEvent} {x : ι → Line ι τ α σ} {d : Driver τ α σ},
      Canonical sys log L (done ++ todo) → Staged sys log L origin [] done x d →
        ∃ y d', Driver.recvLoop todo d = .ok d' ∧ Staged sys log L origin [] (done ++ todo) y d'
  | [], done, x, d, _, h => ⟨x, d, rfl, by rwa [List.append_nil]⟩
  | ev :: todo, done, x, d, hT, h => by
    obtain ⟨y, d₁, hstep, hy⟩ := h.recvStep hn hS hT
    have hsplit : done ++ ev :: todo = (done ++ [ev]) ++ todo := by simp
    rw [hsplit] at hT ⊢
    obtain ⟨z, d', hloop, hz⟩ := hy.recvLoop hn hS hT
    exact ⟨z, d', by rw [Driver.recvLoop, hstep]; exact hloop, hz⟩

omit [DecidableEq ι] [DecidableEq τ] in
/-- Once the timeline is walked every line is at its end. -/
theorem Replaying.finished {timeline : List CausalEvent} {clocks : ActorId → Stamps}
    {s : ReplayState τ α} (hT : Canonical sys log L timeline)
    (h : Replaying sys log L origin timeline x clocks s) (hidle : ∀ i, (x i).rest = []) (i : ι) :
    x i = L i := by
  rcases (h.path i).idle (hidle i) with heq | ⟨env, c, y, -, hpath, -, -, hevents, -⟩
  · exact heq
  · have hpre := hpath.grows.events.filter (fun e => decide (e.op = .recv))
    rw [hevents, List.filter_append, ← hT.recvs i, ← h.walked i] at hpre
    have := hpre.length_le
    simp at this

omit [DecidableEq ι] [DecidableEq τ] in
/-- A re-supplied origin gives back the envelope of `send_external`. -/
theorem originEnvelope_world (sys : Topology ι τ α σ) (m : Nat) (addr : ι) (msg : α) :
    ReplayState.originEnvelope (emitEvent "world" 1 (worldEnvelope sys m addr msg)) m
      (sys.name addr, ⟨(sys.actor addr).msgType, msg⟩) = worldEnvelope sys m addr msg := by
  have hclock : vclockFrom (VectorClock.new.increment "world").toStringMap =
      VectorClock.new.increment "world" := by decide
  simp only [ReplayState.originEnvelope, emitEvent, worldEnvelope, hclock]

omit [DecidableEq ι] [DecidableEq τ] in
/-- The seeding loop. -/
theorem Staged.seeded (hS : Script sys log L origin) {rs : ReplaySystem τ α σ}
    (hr : Rebuilds sys rs) (ho : ∀ env ∈ origin, ∃ m addr msg, env = worldEnvelope sys m addr msg ∧
      rs.origins[0]? = some (sys.name addr, ⟨(sys.actor addr).msgType, msg⟩)) :
    Staged sys log L origin rs.actors.keys [] (.start sys) (rs.seeded log) := by
  have hnames : ∀ i, sys.name i ∈ rs.actors.keys := fun i =>
    Std.ExtTreeMap.mem_keys.mpr (getElem_of_getElem? (hr.actors i)).1
  refine ⟨?_, fun i _ => ⟨rfl, hr.actors i⟩, fun i hi => absurd (hnames i) hi⟩
  have hstate : ∀ s : ReplayState τ α, s.recorded = .build log → s.divergences = [] →
      (s.sendCount = fun _ => 0) → (∀ env ∈ origin, idOf "world" 1 ∈ s.produced) →
      (∀ env ∈ origin, s.pending env.msgId = some env) →
        Replaying sys log L origin [] (Line.start sys) (fun _ => .zero) s := by
    intro s hrec hsil hsend hprod hpend
    refine ⟨fun _ => .refl, hS.path, fun _ => rfl, hrec, hsil, fun _ => congrFun hsend _,
      fun _ _ he => (by cases he), hprod, fun _ => rfl, ?_⟩
    rintro env (⟨i, hi⟩ | horigin) -
    · cases hi
    · exact hpend env horigin
  show Replaying sys log L origin [] (Line.start sys) (fun _ => .zero) (ReplayState.seedOrigins
    rs.origins 0 ((RecordedIndex.build log).emitsByActor "world") (.init log))
  rw [hS.world]
  cases horigin : origin with
  | none =>
    have hunseeded := hstate (.init log) rfl rfl rfl (by simp [horigin]) (by simp [horigin])
    rwa [horigin] at hunseeded
  | some env =>
    obtain ⟨m, addr, msg, rfl, hsup⟩ := ho env horigin
    have hparsed : (emitEvent "world" 1 (worldEnvelope sys m addr msg)).parsedMid = some m :=
      CausalEvent.parsedMid_mid rfl (hS.mids _ (.inr horigin))
    simp only [Option.toList_some, List.map_cons, List.map_nil, ReplayState.seedOrigins,
      ReplayState.seedOrigin, hparsed, hsup, originEnvelope_world]
    rw [← horigin]
    refine hstate _ rfl rfl rfl (fun _ _ => Finset.mem_insert_self ..) fun env henv => ?_
    rw [horigin] at henv
    cases henv
    exact Function.update_self ..

/-- **A script replays without divergences.** -/
theorem Script.replay (hn : Named sys) (hS : Script sys log L origin) {rs : ReplaySystem τ α σ}
    (hr : Rebuilds sys rs) (ho : ∀ env ∈ origin, ∃ m addr msg, env = worldEnvelope sys m addr msg ∧
      rs.origins[0]? = some (sys.name addr, ⟨(sys.actor addr).msgType, msg⟩))
    {r : Replayed} (hlog : replayLog log = .ok r) (hT : Canonical sys log L r.timeline) :
    ∃ d, rs.replayRun log = .ok (r, d) ∧ d.state.divergences = [] := by
  obtain ⟨x, d₁, hstart, hx⟩ :=
    (Staged.seeded hS hr ho).startAll hn hS Std.ExtTreeMap.nodup_keys hr.keys
  have hT' : Canonical sys log L ([] ++ r.timeline) := hT
  obtain ⟨y, d₂, hloop, hy⟩ := hx.recvLoop hn hS hT'
  rw [List.nil_append] at hy
  have hfinal := hy.state.finished hT fun i => (hy.ready i (by simp)).1
  have hcomplete : d₂.state.complete log = d₂.state := by
    refine complete_produced fun e he => ?_
    rcases hS.covers e he with ⟨i, hi⟩ | ⟨env, henv, rfl⟩
    · exact hy.state.produced i e (by rwa [hfinal i])
    · exact hy.state.seeded env henv
  refine ⟨{ d₂ with state := d₂.state.complete log }, ?_, ?_⟩
  · simp only [ReplaySystem.replayRun, hlog, ReplaySystem.reexecute, hstart, hloop, bind,
      Except.bind, pure, Except.pure]
  · show (d₂.state.complete log).divergences = []
    rw [hcomplete]
    exact hy.state.silent

end Driving

end Prod

end Lichtung
