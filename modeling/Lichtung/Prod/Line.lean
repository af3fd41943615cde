import Lichtung.Prod.Ledger

/-!
# World-lines

What a step of the system means for the log.  A `Line` is what one actor has done so far: the
events of its world-line, the envelopes it sent and received, and where it stands in the calls of
its current method.  A step records nothing, or one event of one line, or a `world` emit.

Principal results: `Step.records` (what a step records, and how it moves the line) and
`Records.grows` (the log only grows).
-/

namespace Lichtung.Prod

variable {ι τ α σ : Type}

/-- Actor names are distinct, and none is `world`. -/
structure Named (sys : Topology ι τ α σ) : Prop where
  injective : Function.Injective sys.name
  not_world : ∀ i, sys.name i ≠ "world"

/-! ## What one actor does -/

structure Line (ι τ α σ : Type) where
  events : List CausalEvent
  sent : List (Envelope τ α)
  received : List (Envelope τ α)
  state : σ
  stamps : Stamps
  rest : List (Action ι α)

namespace Line

variable (sys : Topology ι τ α σ) (i : ι)

/-- `started` was called, and has done nothing yet. -/
def start : Line ι τ α σ where
  events := []
  sent := []
  received := []
  state := ((sys.actor i).started (sys.init i)).1
  stamps := .zero
  rest := ((sys.actor i).started (sys.init i)).2

/-- The next event of the line of actor `i`: of its next call, or a receipt once it has made
all its calls. -/
inductive Step (x : Line ι τ α σ) : Line ι τ α σ → Prop where
  | compute (rest : List (Action ι α)) (c : Stamps) (hrest : x.rest = .compute :: rest)
      (hc : c = x.stamps.bump (sys.name i)) :
      Step x { x with
        events := x.events ++ [computeEvent (sys.name i) c.seq c.clock c.lamport.val]
        stamps := c
        rest := rest }
  | send (addr : ι) (msg : α) (rest : List (Action ι α)) (c : Stamps) (m : Nat)
      (env : Envelope τ α) (hrest : x.rest = .send addr msg :: rest)
      (hc : c = x.stamps.bump (sys.name i))
      (henv : env = c.envelope (sys.name i) m (sys.addr addr) msg) :
      Step x { x with
        events := x.events ++ [emitEvent (sys.name i) c.seq env]
        sent := x.sent ++ [env]
        stamps := c
        rest := rest }
  | recv (env : Envelope τ α) (c : Stamps) (hrest : x.rest = [])
      (htype : env.msg.typeId = (sys.actor i).msgType)
      (hc : c = x.stamps.receive (sys.name i) env) :
      Step x {
        events := x.events ++ [recvEvent (sys.name i) c.seq c.clock c.lamport.val env]
        sent := x.sent
        received := x.received ++ [env]
        state := ((sys.actor i).handle x.state env.msg.val).1
        stamps := c
        rest := ((sys.actor i).handle x.state env.msg.val).2 }

variable {sys i} {x y z : Line ι τ α σ}

/-- The run of the actor that leads from one state of its line to another. -/
abbrev Path (sys : Topology ι τ α σ) (i : ι) : Line ι τ α σ → Line ι τ α σ → Prop :=
  Relation.ReflTransGen (Step sys i)

/-- A line only grows. -/
structure Grows (x y : Line ι τ α σ) : Prop where
  events : x.events <+: y.events
  sent : x.sent <+: y.sent
  received : x.received <+: y.received

theorem Step.grows (h : Step sys i x y) : x.Grows y := by
  cases h with
  | compute => exact ⟨List.prefix_append .., List.prefix_rfl, List.prefix_rfl⟩
  | send => exact ⟨List.prefix_append .., List.prefix_append .., List.prefix_rfl⟩
  | recv => exact ⟨List.prefix_append .., List.prefix_rfl, List.prefix_append ..⟩

theorem Path.grows (h : Path sys i x y) : x.Grows y := by
  induction h with
  | refl => exact ⟨List.prefix_rfl, List.prefix_rfl, List.prefix_rfl⟩
  | tail _ h ih =>
    exact ⟨ih.events.trans h.grows.events, ih.sent.trans h.grows.sent,
      ih.received.trans h.grows.received⟩

/-- A line with calls left to make goes on with the next one. -/
theorem Path.next (h : Path sys i x z) (hz : z.rest = []) (hx : x.rest ≠ []) :
    ∃ y, Step sys i x y ∧ Path sys i y z := by
  rcases Relation.ReflTransGen.cases_head h with rfl | hnext
  · exact absurd hz hx
  · exact hnext

/-- Between two messages a line is at its end, or goes on with a receipt. -/
theorem Path.idle (h : Path sys i x z) (hx : x.rest = []) : x = z ∨
    ∃ env c y, Step sys i x y ∧ Path sys i y z ∧
      env.msg.typeId = (sys.actor i).msgType ∧ c = x.stamps.receive (sys.name i) env ∧
      y.events = x.events ++ [recvEvent (sys.name i) c.seq c.clock c.lamport.val env] ∧
      y.sent = x.sent ∧ y.received = x.received ++ [env] ∧ y.stamps = c ∧
      (sys.actor i).handle x.state env.msg.val = (y.state, y.rest) := by
  rcases Relation.ReflTransGen.cases_head h with rfl | ⟨y, hstep, hpath⟩
  · exact .inl rfl
  · refine .inr ?_
    have hstep' := hstep
    cases hstep with
    | compute rest c hrest => rw [hx] at hrest; cases hrest
    | send _ _ _ _ _ _ hrest => rw [hx] at hrest; cases hrest
    | recv env c _ htype hc =>
      exact ⟨env, c, _, hstep', hpath, htype, hc, rfl, rfl, rfl, rfl, rfl⟩

/-- The events of a line are numbered, and its emits are those of the envelopes sent. -/
structure Consistent (sys : Topology ι τ α σ) (i : ι) (x : Line ι τ α σ) : Prop where
  actor : ∀ e ∈ x.events, e.actor = sys.name i
  seqs : x.events.map (·.seq) = List.range' 1 x.stamps.seq
  emits : (x.events.filter (·.op = .emit)).map (·.msgId) = x.sent.map fun env => mid env.msgId
  emitted : ∀ env ∈ x.sent, ∃ seq, emitEvent (sys.name i) seq env ∈ x.events

theorem Consistent.step (h : Consistent sys i x) (hs : Step sys i x y) : Consistent sys i y := by
  have hseqs : ∀ e : CausalEvent, e.seq = x.stamps.seq + 1 →
      (x.events ++ [e]).map (·.seq) = List.range' 1 (x.stamps.seq + 1) := by
    intro e he
    rw [List.map_append, h.seqs, List.range'_concat, Nat.one_mul, Nat.add_comm 1, List.map_singleton,
      he]
  have hactor : ∀ e : CausalEvent, e.actor = sys.name i →
      ∀ f ∈ x.events ++ [e], f.actor = sys.name i := by
    intro e he f hf
    rcases List.mem_append.mp hf with hf | hf
    · exact h.actor f hf
    · obtain rfl := List.mem_singleton.mp hf
      exact he
  have hemitted : ∀ e : CausalEvent, ∀ env ∈ x.sent,
      ∃ seq, emitEvent (sys.name i) seq env ∈ x.events ++ [e] := fun e env henv =>
    (h.emitted env henv).imp fun _ h => List.mem_append_left _ h
  cases hs with
  | compute rest c hrest hc =>
    subst hc
    exact ⟨hactor _ rfl, hseqs _ rfl, by simpa [List.filter_append] using h.emits, hemitted _⟩
  | send addr msg rest c m env hrest hc henv =>
    subst hc
    refine ⟨hactor _ rfl, hseqs _ rfl, ?_, fun env' henv' => ?_⟩
    · simp only [List.filter_append, List.map_append, h.emits]
      rfl
    · rcases List.mem_append.mp henv' with henv' | henv'
      · exact hemitted _ env' henv'
      · obtain rfl := List.mem_singleton.mp henv'
        exact ⟨_, List.mem_append_right _ (List.mem_singleton.mpr rfl)⟩
  | recv env c hrest htype hc =>
    subst hc
    exact ⟨hactor _ rfl, hseqs _ rfl, by simpa [List.filter_append] using h.emits, hemitted _⟩

theorem Path.consistent (h : Path sys i (start sys i) x) : Consistent sys i x := by
  induction h with
  | refl => exact ⟨fun _ h => (by cases h), rfl, rfl, fun _ h => (by cases h)⟩
  | tail _ h ih => exact ih.step h

theorem Consistent.pairwise (h : Consistent sys i x) :
    x.events.Pairwise fun e f => e.seq < f.seq := by
  have hlt : (x.events.map (·.seq)).Pairwise (· < ·) := by
    rw [h.seqs]; exact List.pairwise_lt_range'
  exact List.pairwise_map.mp hlt

end Line

/-! ## Tasks and their lines -/

/-- The calls a task has still to record. -/
def Pc.rest : Pc ι τ α → List (Action ι α)
  | .body _ rest | .sending _ rest _ _ _ => rest
  | .numbered _ rest addr msg _ => .send addr msg :: rest
  | _ => []

/-- The task of actor `i` has done what the line says. -/
structure Task.Plays (sys : Topology ι τ α σ) (i : ι) (t : Task ι τ α σ)
    (x : Line ι τ α σ) : Prop where
  fresh : t.pc = .spawned → t.state = sys.init i ∧ t.stamps = .zero ∧ x = .start sys i
  running : t.pc ≠ .spawned → x.state = t.state ∧ x.stamps = t.stamps ∧ x.rest = t.pc.rest

variable {sys : Topology ι τ α σ} {s s' : Config ι τ α σ}

/-- A running task that moves on within its calls. -/
theorem Task.Plays.move {i : ι} {t t' : Task ι τ α σ} {x : Line ι τ α σ} (h : t.Plays sys i x)
    (hpc : t.pc ≠ .spawned) (hpc' : t'.pc ≠ .spawned) (hstate : t'.state = t.state)
    (hstamps : t'.stamps = t.stamps) (hrest : t'.pc.rest = t.pc.rest) : t'.Plays sys i x where
  fresh := fun h' => absurd h' hpc'
  running := fun _ => by rw [hstate, hstamps, hrest]; exact h.running hpc

/-- `t'` has done what `t` has. -/
theorem Task.Plays.congr {i : ι} {t t' : Task ι τ α σ} {x : Line ι τ α σ} (h : t.Plays sys i x)
    (hpc : t'.pc = t.pc) (hstate : t'.state = t.state) (hstamps : t'.stamps = t.stamps) :
    t'.Plays sys i x where
  fresh := by rw [hpc, hstate, hstamps]; exact h.fresh
  running := by rw [hpc, hstate, hstamps]; exact h.running

variable [DecidableEq ι] [DecidableEq τ]

/-! ## What a step records -/

/-- The stamps of every task. -/
def Config.stamps (s : Config ι τ α σ) (i : ι) : Stamps := (s.tasks i).stamps

variable (sys) in
/-- A step records nothing and moves no line, or one event of the line of one actor, or a `world`
emit. -/
inductive Records (s s' : Config ι τ α σ) : Prop where
  | nothing (hev : s'.events = s.events) (hst : s'.stamps = s.stamps)
      (hplay : ∀ j x, (s.tasks j).Plays sys j x → (s'.tasks j).Plays sys j x)
  | compute (i : ι) (phase : Phase) (rest : List (Action ι α)) (c : Stamps)
      (hpc : (s.tasks i).pc = .body phase (.compute :: rest))
      (hc : c = (s.stamps i).bump (sys.name i))
      (hev : s'.events = s.events ++ [computeEvent (sys.name i) c.seq c.clock c.lamport.val])
      (htasks : s'.tasks = Function.update s.tasks i { s.tasks i with
        pc := .body phase rest
        stamps := c })
  | emit (i : ι) (phase : Phase) (rest : List (Action ι α)) (addr : ι) (msg : α) (m : Nat)
      (c : Stamps) (env : Envelope τ α) (hpc : (s.tasks i).pc = .numbered phase rest addr msg m)
      (hc : c = (s.stamps i).bump (sys.name i))
      (henv : env = c.envelope (sys.name i) m (sys.addr addr) msg)
      (hev : s'.events = s.events ++ [emitEvent (sys.name i) c.seq env])
      (htasks : s'.tasks = Function.update s.tasks i { s.tasks i with
        pc := .sending phase rest .count addr env
        stamps := c })
  | recv (i : ι) (c : Stamps) (env : Envelope τ α) (hpc : (s.tasks i).pc = .received env)
      (hc : c = (s.stamps i).receive (sys.name i) env)
      (hev : s'.events = s.events ++
        [recvEvent (sys.name i) c.seq c.clock c.lamport.val env])
      (htasks : s'.tasks = Function.update s.tasks i { s.tasks i with
        pc := .body .handling (handleAny sys i (s.tasks i).state env).2
        state := (handleAny sys i (s.tasks i).state env).1
        stamps := c })
  | world (x : External ι τ α) (hx : x ∈ s.external) (hstage : x.stage = .record)
      (hev : s'.events = s.events ++ [emitEvent "world" 1 x.env]) (htasks : s'.tasks = s.tasks)

omit [DecidableEq τ] in
/-- A step of one task moves its stamps alone. -/
theorem stamps_task {i : ι} {t : Task ι τ α σ} {c : Stamps}
    (htasks : s'.tasks = Function.update s.tasks i t) (ht : t.stamps = c) :
    s'.stamps = Function.update s.stamps i c := by
  funext j
  simp only [Config.stamps, htasks]
  by_cases hij : j = i
  · subst hij; rw [Function.update_self, Function.update_self, ht]
  · rw [Function.update_of_ne hij, Function.update_of_ne hij]; rfl

/-- A step of one task that moves no line. -/
theorem Records.task {i : ι} {t : Task ι τ α σ} (htasks : s'.tasks = Function.update s.tasks i t)
    (hev : s'.events = s.events) (hst : t.stamps = s.stamps i)
    (hplay : ∀ x, (s.tasks i).Plays sys i x → t.Plays sys i x) : Records sys s s' := by
  refine .nothing hev ?_ fun j x hx => ?_
  · rw [stamps_task htasks hst]
    exact Function.update_eq_self ..
  · rw [htasks]
    by_cases hij : j = i
    · subst hij; rw [Function.update_self]; exact hplay x hx
    · rw [Function.update_of_ne hij]; exact hx

/-- The calls left do not change. -/
theorem Records.quiet {i : ι} {t : Task ι τ α σ} {pc : Pc ι τ α} (hpc : (s.tasks i).pc = pc)
    (hpc0 : pc ≠ .spawned) (htasks : s'.tasks = Function.update s.tasks i t)
    (hev : s'.events = s.events) (ht : t.pc ≠ .spawned) (hstate : t.state = (s.tasks i).state)
    (hst : t.stamps = (s.tasks i).stamps) (hrest : t.pc.rest = pc.rest) : Records sys s s' :=
  .task htasks hev hst fun _ hx => hx.move (hpc ▸ hpc0) ht hstate hst (hpc ▸ hrest)

theorem Step.records {l : Label ι α} (hs : Step sys s l s') : Records sys s s' := by
  cases hs with
  | @start i hd hpc _ =>
    refine .task rfl rfl rfl fun x hx => ?_
    obtain ⟨hstate, hstamps, rfl⟩ := hx.fresh hpc
    exact ⟨(by simp), fun _ => ⟨by rw [hstate]; rfl, hstamps.symm, by rw [hstate]; rfl⟩⟩
  | @compute i phase rest hd hpc => exact .compute i phase rest _ hpc rfl rfl rfl
  | @emit i phase rest addr msg m hd hpc =>
    exact .emit i phase rest addr msg m _ _ hpc rfl rfl rfl rfl
  | @receive i env hd hpc => exact .recv i _ env hpc rfl rfl rfl
  | @extRecord k x hk hx => exact .world x (List.mem_of_getElem? hk) hx rfl rfl
  | @number i phase rest addr msg hd hpc =>
    exact .quiet hpc (by simp) rfl rfl (by simp) rfl rfl rfl
  | @startedDone i hd hpc => exact .quiet hpc (by simp) rfl rfl (by simp) rfl rfl rfl
  | @handled i hd hpc =>
    refine .quiet hpc (by simp) rfl rfl ?_ rfl rfl ?_
    · dsimp only; split <;> simp
    · dsimp only; split <;> rfl
  | @count i phase rest addr env hd hpc => exact .quiet hpc (by simp) rfl rfl (by simp) rfl rfl rfl
  | @deliver i phase rest addr env hd hpc hlive =>
    exact .quiet hpc (by simp) rfl rfl (by simp) rfl rfl rfl
  | @bounce i phase rest addr env hd hpc hgone => exact .quiet hpc (by simp) rfl rfl (by simp) rfl rfl rfl
  | @undo i phase rest addr env hd hpc =>
    refine .quiet hpc (by simp) rfl rfl ?_ rfl rfl ?_
    · dsimp only; split <;> simp
    · dsimp only; split <;> rfl
  | @wake i phase rest addr env hd hpc =>
    exact .quiet hpc (by simp) (s.notifyOne_setPc_tasks i _) s.notifyOne_events (by simp) rfl rfl rfl
  | @dequeue i env queue hd hpc hq => exact .quiet hpc (by simp) rfl rfl (by simp) rfl rfl rfl
  | @notify i hd hpc =>
    exact .quiet hpc (by simp) (s.notifyOne_setPc_tasks i _) s.notifyOne_events (by simp) rfl rfl rfl
  | @panic i | @abort i | @cancel i =>
    exact .task (i := i) rfl rfl rfl fun _ hx => hx.congr rfl rfl rfl
  | sendExternal | extCount | extDeliver | extLost | call | exit | again | permit | park | join =>
    exact .nothing rfl rfl fun _ _ h => h

/-- The log only grows. -/
theorem Records.grows (h : Records sys s s') : s.events <+: s'.events := by
  cases h with
  | nothing hev => rw [hev]
  | compute _ _ _ _ _ _ hev | emit _ _ _ _ _ _ _ _ _ _ _ hev | recv _ _ _ _ _ hev
  | world _ _ _ hev => rw [hev]; exact List.prefix_append ..

end Lichtung.Prod
