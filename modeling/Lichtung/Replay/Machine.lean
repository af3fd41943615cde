import Lichtung.Replay.Local

/-!
# The replay, one call at a time

`ReplaySystem::replay` between any two of its elementary steps: seeding one world emit, one call of
a handler on its context, handing one actor its `started`, serving one recorded event.  The states
a `Machine` goes through are the states the code goes through, also in a replay that panics.

Principal results: `Machine.reexecute_ok_iff` and `Machine.reexecute_error_iff` (the machine ends as
`reexecute` does) and `Machine.next_change` (what one step does to the stamps and the shared state).
-/

namespace Lichtung

variable {τ α σ : Type}

theorem Except.map_eq_ok {ε β γ : Type} {f : β → γ} {x : Except ε β} {c : γ} :
    x.map f = .ok c ↔ ∃ b, x = .ok b ∧ c = f b := by
  cases x with
  | error e => exact iff_of_false (by simp [Except.map]) (by simp)
  | ok b => simp [Except.map, eq_comm]

theorem Except.map_eq_error {ε β γ : Type} {f : β → γ} {x : Except ε β} {e : ε} :
    x.map f = .error e ↔ x = .error e := by
  cases x <;> simp [Except.map]

/-! ## Handlers, one call at a time -/

namespace Driver

/-- One call of the handler of `id` on its context. -/
def perform [Counter] (id : ActorId) (d : Driver τ α σ) (a : Action (Addr τ) α) : Driver τ α σ :=
  let r := Context.perform id a (d.clocks id) (⟨d.state, id⟩ : ReplayDispatch τ α)
  { d with clocks := Function.update d.clocks id r.1, state := r.2.state }

variable [DecidableEq τ]

/-- `drive` up to the calls that the handler makes, which are returned. -/
def call (d : Driver τ α σ) (dst : ActorId) (msg : Option (Boxed τ α)) :
    Except Abort (Driver τ α σ × List (Action (Addr τ) α)) :=
  match d.actors[dst]? with
  | none => .error (.panicked "actor exists")
  | some t =>
    match invoke t msg with
    | none => .error (.panicked "replay topology mismatch: wrong message type for actor")
    | some (state, actions) =>
      .ok ({ d with actors := d.actors.insert dst ⟨t.actor, state⟩ }, actions)

/-- One turn of the recv loop up to the calls that the handler makes. -/
def recv [Counter] (ev : CausalEvent) (d : Driver τ α σ) :
    Except Abort (Driver τ α σ × List (Action (Addr τ) α)) :=
  if ev.op ≠ .recv then .ok (d, [])
  else
    match ev.parsedMid with
    | none => .ok ({ d with state := d.state.diverge ev.id .recvWithoutMsgId }, [])
    | some m =>
      match d.state.pending m with
      | none => .ok ({ d with state := d.state.diverge ev.id .noMessage }, [])
      | some env =>
        let d := { d with state := d.state.consume ev m env }.stampRecv ev.actor env
        if ev.actor ∉ d.actors then
          .ok ({ d with state := d.state.diverge ev.id .notRebuilt }, [])
        else d.call ev.actor (some env.msg)

omit [DecidableEq τ] in
theorem performAll_eq [Counter] (id : ActorId) : ∀ (as : List (Action (Addr τ) α))
    (d : Driver τ α σ),
    as.foldl (perform id) d =
      { d with
        clocks := Function.update d.clocks id
          (Context.performAll id as (d.clocks id) (⟨d.state, id⟩ : ReplayDispatch τ α)).1
        state := (Context.performAll id as (d.clocks id)
          (⟨d.state, id⟩ : ReplayDispatch τ α)).2.state }
  | [], d => by simp [Context.performAll, Function.update_eq_self]
  | a :: as, d => by
    rw [List.foldl_cons, performAll_eq id as, Context.performAll, perform_snd]
    simp only [perform, Function.update_self, Function.update_idem]

/-- A handler's calls, in order. -/
def run [Counter] (id : ActorId) (p : Driver τ α σ × List (Action (Addr τ) α)) : Driver τ α σ :=
  p.2.foldl (perform id) p.1

theorem drive_eq [Counter] (d : Driver τ α σ) (dst : ActorId) (msg : Option (Boxed τ α)) :
    d.drive dst msg = (d.call dst msg).map (run dst) := by
  unfold drive call
  cases d.actors[dst]? with
  | none => rfl
  | some t =>
    dsimp only
    cases invoke t msg with
    | none => rfl
    | some p => simp only [Except.map, run, performAll_eq]

theorem recvStep_eq [Counter] (d : Driver τ α σ) (ev : CausalEvent) :
    d.recvStep ev = (d.recv ev).map (run ev.actor) := by
  unfold recvStep recv
  by_cases hop : ev.op = .recv
  · rw [if_neg (not_not.mpr hop), if_neg (not_not.mpr hop)]
    cases ev.parsedMid with
    | none => rfl
    | some m =>
      dsimp only
      cases d.state.pending m with
      | none => rfl
      | some env =>
        dsimp only
        rw [drive_eq]
        split <;> rfl
  · rw [if_pos hop, if_pos hop]
    rfl

end Driver

/-! ## The machine -/

/-- A replay between two elementary steps: the driver, the position in the seeding loop with the
world emits left, the running actor with the calls its handler has still to make, the names whose
`started` is still to come, and the rest of the timeline. -/
structure Machine (τ α σ : Type) where
  driver : Driver τ α σ
  position : Nat
  emits : List CausalEvent
  current : ActorId
  actions : List (Action (Addr τ) α)
  names : List ActorId
  timeline : List CausalEvent

namespace Machine

/-- The start of `replay` on an accepted log. -/
def init (sys : ReplaySystem τ α σ) (log timeline : List CausalEvent) : Machine τ α σ where
  driver := ⟨sys.actors, fun _ => .zero, .init log⟩
  position := 0
  emits := (RecordedIndex.build log).emitsByActor "world"
  current := "world"
  actions := []
  names := sys.actors.keys
  timeline := timeline

variable [Counter] [DecidableEq τ] (origins : List (ActorId × Boxed τ α))

/-- The next elementary step: `none` at the end of the recv loop, an `Abort` at a panic. -/
def next (m : Machine τ α σ) : Option (Except Abort (Machine τ α σ)) :=
  match m.emits, m.actions, m.names, m.timeline with
  | we :: wes, _, _, _ =>
    some (.ok { m with
      driver := { m.driver with state := m.driver.state.seedOrigin we origins[m.position]? }
      position := m.position + 1
      emits := wes })
  | [], a :: as, _, _ =>
    some (.ok { m with driver := m.driver.perform m.current a, actions := as })
  | [], [], name :: names, _ =>
    some ((m.driver.call name none).map fun p =>
      { m with driver := p.1, current := name, actions := p.2, names := names })
  | [], [], [], ev :: evs =>
    some ((m.driver.recv ev).map fun p =>
      { m with driver := p.1, current := ev.actor, actions := p.2, timeline := evs })
  | [], [], [], [] => none

/-- The four elementary steps. -/
inductive Step (m : Machine τ α σ) : Machine τ α σ → Prop
  | seed {we : CausalEvent} {wes : List CausalEvent} (he : m.emits = we :: wes) :
      Step m { m with
        driver := { m.driver with state := m.driver.state.seedOrigin we origins[m.position]? }
        position := m.position + 1
        emits := wes }
  | act {a : Action (Addr τ) α} {as : List (Action (Addr τ) α)} (he : m.emits = [])
      (ha : m.actions = a :: as) :
      Step m { m with driver := m.driver.perform m.current a, actions := as }
  | start {name : ActorId} {names : List ActorId}
      {p : Driver τ α σ × List (Action (Addr τ) α)} (he : m.emits = []) (ha : m.actions = [])
      (hn : m.names = name :: names) (hcall : m.driver.call name none = .ok p) :
      Step m { m with driver := p.1, current := name, actions := p.2, names := names }
  | serve {ev : CausalEvent} {evs : List CausalEvent}
      {p : Driver τ α σ × List (Action (Addr τ) α)} (he : m.emits = []) (ha : m.actions = [])
      (hn : m.names = []) (ht : m.timeline = ev :: evs) (hrecv : m.driver.recv ev = .ok p) :
      Step m { m with driver := p.1, current := ev.actor, actions := p.2, timeline := evs }

variable {origins} in
theorem next_step {m m' : Machine τ α σ} (h : m.next origins = some (.ok m')) :
    Step origins m m' := by
  obtain ⟨d, k, emits, current, actions, names, timeline⟩ := m
  rcases emits with _ | ⟨we, wes⟩
  · rcases actions with _ | ⟨a, as⟩
    · rcases names with _ | ⟨name, names⟩
      · rcases timeline with _ | ⟨ev, evs⟩
        · cases h
        · obtain ⟨p, hp, rfl⟩ := Except.map_eq_ok.mp (Option.some.inj h)
          exact .serve rfl rfl rfl rfl hp
      · obtain ⟨p, hp, rfl⟩ := Except.map_eq_ok.mp (Option.some.inj h)
        exact .start rfl rfl rfl hp
    · cases h
      exact .act rfl rfl
  · cases h
    exact .seed rfl

variable {origins} in
theorem next_none {m : Machine τ α σ} (h : m.next origins = none) :
    m.emits = [] ∧ m.actions = [] ∧ m.names = [] ∧ m.timeline = [] := by
  obtain ⟨d, k, emits, current, actions, names, timeline⟩ := m
  rcases emits with _ | ⟨we, wes⟩
  · rcases actions with _ | ⟨a, as⟩
    · rcases names with _ | ⟨name, names⟩
      · rcases timeline with _ | ⟨ev, evs⟩
        · exact ⟨rfl, rfl, rfl, rfl⟩
        · cases h
      · cases h
    · cases h
  · cases h

/-- What is left of the replay, in the words of `replay`. -/
def finish (m : Machine τ α σ) : Except Abort (Driver τ α σ) := do
  let state := ReplayState.seedOrigins origins m.position m.emits m.driver.state
  let d ← Driver.startAll m.names (Driver.run m.current ({ m.driver with state }, m.actions))
  Driver.recvLoop m.timeline d

theorem finish_next (m : Machine τ α σ) : m.finish origins =
    match m.next origins with
    | none => .ok m.driver
    | some (.error e) => .error e
    | some (.ok m') => m'.finish origins := by
  obtain ⟨d, k, emits, current, actions, names, timeline⟩ := m
  unfold next
  cases emits with
  | cons we wes => rfl
  | nil =>
    cases actions with
    | cons a as => rfl
    | nil =>
      cases names with
      | cons name names =>
        simp only [finish, ReplayState.seedOrigins, Driver.run, List.foldl_nil, Driver.startAll,
          Driver.drive_eq]
        cases d.call name none <;> rfl
      | nil =>
        cases timeline with
        | cons ev evs =>
          simp only [finish, ReplayState.seedOrigins, Driver.run, List.foldl_nil, Driver.startAll,
            Driver.recvLoop, Driver.recvStep_eq]
          show (d.recv ev).map _ >>= _ = _
          cases d.recv ev <;> rfl
        | nil => rfl

/-- The states of a replay of `log` on `sys` that walks `timeline`. -/
inductive Reached (sys : ReplaySystem τ α σ) (log timeline : List CausalEvent) :
    Machine τ α σ → Prop
  | entry : Reached sys log timeline (init sys log timeline)
  | step {m m' : Machine τ α σ} (h : Reached sys log timeline m)
      (hnext : m.next sys.origins = some (.ok m')) : Reached sys log timeline m'

/-! ### The end of a replay -/

/-- What is left to do: world emits, activations, calls. -/
def left (m : Machine τ α σ) : Nat ×ₗ Nat ×ₗ Nat :=
  toLex (m.emits.length, toLex (m.names.length + m.timeline.length, m.actions.length))

variable {origins}

theorem next_left {m m' : Machine τ α σ} (h : m.next origins = some (.ok m')) :
    m'.left < m.left := by
  cases next_step h with
  | seed he =>
    refine Prod.Lex.toLex_lt_toLex.mpr (.inl ?_)
    simp [he]
  | act he ha =>
    refine Prod.Lex.toLex_lt_toLex.mpr (.inr ⟨rfl, Prod.Lex.toLex_lt_toLex.mpr (.inr ⟨rfl, ?_⟩)⟩)
    simp [ha]
  | start he ha hn hcall =>
    refine Prod.Lex.toLex_lt_toLex.mpr (.inr ⟨rfl, Prod.Lex.toLex_lt_toLex.mpr (.inl ?_)⟩)
    simp [hn]
  | serve he ha hn ht hrecv =>
    refine Prod.Lex.toLex_lt_toLex.mpr (.inr ⟨rfl, Prod.Lex.toLex_lt_toLex.mpr (.inl ?_)⟩)
    simp [ht]

variable {sys : ReplaySystem τ α σ} {log timeline : List CausalEvent}

/-- Every replay ends, in one of two ways, and what was left of it is what it ends with. -/
theorem Reached.ends {m : Machine τ α σ} (h : Reached sys log timeline m) :
    ∃ m', Reached sys log timeline m' ∧
      (m'.next sys.origins = none ∧ m.finish sys.origins = .ok m'.driver ∨
        ∃ e, m'.next sys.origins = some (.error e) ∧ m.finish sys.origins = .error e) := by
  have hfin := m.finish_next sys.origins
  cases hn : m.next sys.origins with
  | none =>
    rw [hn] at hfin
    exact ⟨m, h, .inl ⟨hn, hfin⟩⟩
  | some x =>
    cases x with
    | error e =>
      rw [hn] at hfin
      exact ⟨m, h, .inr ⟨e, hn, hfin⟩⟩
    | ok m₁ =>
      have : m₁.left < m.left := next_left hn
      rw [hn] at hfin
      rw [hfin]
      exact (h.step hn).ends
termination_by m.left
decreasing_by exact this

/-- The state in which a replay stops is the one its start leads to. -/
theorem Reached.finish_eq {m : Machine τ α σ} (h : Reached sys log timeline m) :
    m.finish sys.origins = (init sys log timeline).finish sys.origins := by
  induction h with
  | entry => rfl
  | @step m m' _ hnext ih =>
    have hfin := m.finish_next sys.origins
    rw [hnext] at hfin
    exact hfin.symm.trans ih

theorem reexecute_eq (sys : ReplaySystem τ α σ) (log timeline : List CausalEvent) :
    sys.reexecute log timeline = ((init sys log timeline).finish sys.origins).map fun d =>
      { d with state := d.state.complete log } := by
  have hstart : (init sys log timeline).finish sys.origins =
      Driver.startAll sys.actors.keys (sys.seeded log) >>= Driver.recvLoop timeline := rfl
  rw [hstart, ReplaySystem.reexecute]
  cases Driver.startAll sys.actors.keys (sys.seeded log) with
  | error e => rfl
  | ok d =>
    show Driver.recvLoop timeline d >>= _ = (Driver.recvLoop timeline d).map _
    cases Driver.recvLoop timeline d <;> rfl

/-- **A replay that returns is a run of the machine to the end of the recv loop.** -/
theorem reexecute_ok_iff {d : Driver τ α σ} : sys.reexecute log timeline = .ok d ↔
    ∃ m, Reached sys log timeline m ∧ m.next sys.origins = none ∧
      d = { m.driver with state := m.driver.state.complete log } := by
  rw [reexecute_eq]
  constructor
  · intro h
    obtain ⟨d', hd, rfl⟩ := Except.map_eq_ok.mp h
    obtain ⟨m, hm, ⟨hn, hfin⟩ | ⟨e, hn, hfin⟩⟩ := (Reached.entry : Reached sys log timeline _).ends
    · rw [hfin] at hd
      cases hd
      exact ⟨m, hm, hn, rfl⟩
    · rw [hfin] at hd
      cases hd
  · rintro ⟨m, hm, hn, rfl⟩
    have hfin := m.finish_next sys.origins
    rw [hn] at hfin
    rw [← hm.finish_eq, hfin]
    rfl

/-- A replay that panics is a run of the machine to the panic. -/
theorem reexecute_error_iff {e : Abort} : sys.reexecute log timeline = .error e ↔
    ∃ m, Reached sys log timeline m ∧ m.next sys.origins = some (.error e) := by
  rw [reexecute_eq]
  constructor
  · intro h
    have h := Except.map_eq_error.mp h
    obtain ⟨m, hm, ⟨hn, hfin⟩ | ⟨e', hn, hfin⟩⟩ := (Reached.entry : Reached sys log timeline _).ends
    · rw [hfin] at h
      cases h
    · rw [hfin] at h
      cases h
      exact ⟨m, hm, hn⟩
  · rintro ⟨m, hm, hn⟩
    have hfin := m.finish_next sys.origins
    rw [hn] at hfin
    rw [← hm.finish_eq, hfin]
    rfl

/-! ### What a step changes -/

/-- What one step does to the stamps and to the shared state, up to the divergences it reports. -/
inductive Change (origins : List (ActorId × Boxed τ α)) (m m' : Machine τ α σ) : Prop
  | quiet (ds : List Divergence) (hclocks : m'.driver.clocks = m.driver.clocks)
      (hstate : m'.driver.state = { m.driver.state with divergences := ds })
  | seed {we : CausalEvent} {n : Nat} {o : ActorId × Boxed τ α} (he : m.emits.head? = some we)
      (hmid : we.parsedMid = some n) (ho : origins[m.position]? = some o)
      (hclocks : m'.driver.clocks = m.driver.clocks)
      (hstate : m'.driver.state = m.driver.state.seed we (ReplayState.originEnvelope we n o))
  | compute {c : Stamps} (he : m.emits = []) (ha : m.actions.head? = some .compute)
      (hc : c = (m.driver.clocks m.current).bump m.current)
      (hclocks : m'.driver.clocks = Function.update m.driver.clocks m.current c)
      (hstate : m'.driver.state =
        m.driver.state.verify (computeEvent m.current c.seq c.clock c.lamport.val))
  | send {c : Stamps} {addr : Addr τ} {msg : α} {env : Envelope τ α} (he : m.emits = [])
      (ha : m.actions.head? = some (.send addr msg))
      (hc : c = (m.driver.clocks m.current).bump m.current)
      (henv : env = c.envelope m.current
        (m.driver.state.recorded.sendMid m.current (m.driver.state.sendCount m.current)) addr msg)
      (hclocks : m'.driver.clocks = Function.update m.driver.clocks m.current c)
      (heff : Effect m.current [emitEvent m.current c.seq env] [env] m.driver.state m'.driver.state)
  | recv {ev : CausalEvent} {n : Nat} {c : Stamps} {env : Envelope τ α} (ds : List Divergence)
      (he : m.emits = []) (ha : m.actions = []) (hn : m.names = [])
      (ht : m.timeline.head? = some ev) (hop : ev.op = .recv) (hmid : ev.parsedMid = some n)
      (henv : m.driver.state.pending n = some env)
      (hc : c = (m.driver.clocks ev.actor).receive ev.actor env)
      (hclocks : m'.driver.clocks = Function.update m.driver.clocks ev.actor c)
      (hstate : m'.driver.state = { (m.driver.state.consume ev n env).verify
        (recvEvent ev.actor c.seq c.clock c.lamport.val env) with divergences := ds })

omit [Counter] in
theorem call_ok {d : Driver τ α σ} {dst : ActorId} {msg : Option (Boxed τ α)}
    {p : Driver τ α σ × List (Action (Addr τ) α)} (h : d.call dst msg = .ok p) :
    p.1.clocks = d.clocks ∧ p.1.state = d.state ∧ ∀ a, a ∈ p.1.actors ↔ a ∈ d.actors := by
  unfold Driver.call at h
  split at h
  · cases h
  · rename_i t ht
    split at h
    · cases h
    · cases h
      refine ⟨rfl, rfl, fun a => ?_⟩
      rw [Std.ExtTreeMap.mem_insert, Std.LawfulEqCmp.compare_eq_iff_eq]
      refine or_iff_right_of_imp ?_
      rintro rfl
      exact (getElem_of_getElem? ht).1

theorem recv_change {m m' : Machine τ α σ} {ev : CausalEvent}
    {p : Driver τ α σ × List (Action (Addr τ) α)} (he : m.emits = []) (ha : m.actions = [])
    (hn : m.names = []) (ht : m.timeline.head? = some ev)
    (h : m.driver.recv ev = .ok p) (hm' : m'.driver = p.1) : Change origins m m' := by
  unfold Driver.recv at h
  split at h
  · cases h
    exact .quiet _ (by rw [hm']) (by rw [hm'])
  · rename_i hop
    split at h
    · cases h
      exact .quiet _ (by rw [hm']) (by rw [hm']; rfl)
    · rename_i n hmid
      split at h
      · cases h
        exact .quiet _ (by rw [hm']) (by rw [hm']; rfl)
      · rename_i env henv
        dsimp only at h
        split at h
        · cases h
          exact .recv _ he ha hn ht (not_not.mp hop) hmid henv rfl (by rw [hm']; rfl)
            (by rw [hm']; rfl)
        · obtain ⟨hclocks, hstate, -⟩ := call_ok h
          exact .recv _ he ha hn ht (not_not.mp hop) hmid henv rfl (by rw [hm', hclocks]; rfl)
            (by rw [hm', hstate]; rfl)

/-- **What one step does.** -/
theorem next_change {m m' : Machine τ α σ} (h : m.next origins = some (.ok m')) :
    Change origins m m' := by
  cases next_step h with
  | @seed we wes he =>
    have hhead : m.emits.head? = some we := by rw [he]; rfl
    cases hmid : we.parsedMid with
    | none =>
      refine .quiet (m.driver.state.diverge we.id .malformedWorldEmit).divergences rfl ?_
      dsimp only
      rw [ReplayState.seedOrigin, hmid]
      rfl
    | some n =>
      cases ho : origins[m.position]? with
      | none =>
        refine .quiet (m.driver.state.diverge we.id .noOrigin).divergences rfl ?_
        dsimp only
        rw [ReplayState.seedOrigin, hmid]
        rfl
      | some o =>
        refine .seed hhead hmid ho rfl ?_
        dsimp only
        rw [ReplayState.seedOrigin, hmid]
  | @act a as he ha =>
    have hhead : m.actions.head? = some a := by rw [ha]; rfl
    cases a with
    | compute => exact .compute he hhead rfl rfl rfl
    | send addr msg =>
      obtain ⟨s', hsend, heff⟩ := send_effect (c := m.driver.clocks m.current) addr msg
        (rfl : _ = m.driver.state.recorded.sendMid m.current (m.driver.state.sendCount m.current))
      have hperform : m.driver.perform m.current (.send addr msg) = { m.driver with
          clocks := Function.update m.driver.clocks m.current
            ((m.driver.clocks m.current).bump m.current)
          state := s' } := by
        rw [Driver.perform, Context.perform, hsend]
      refine .send he hhead rfl rfl ?_ ?_
      · dsimp only
        rw [hperform]
      · dsimp only
        rw [hperform]
        exact heff
  | start he ha hn hcall =>
    obtain ⟨hclocks, hstate, -⟩ := call_ok hcall
    exact .quiet _ hclocks hstate
  | @serve ev evs p he ha hn ht hrecv =>
    exact recv_change he ha hn (by rw [ht]; rfl) hrecv rfl

omit [DecidableEq τ] in
/-- The index a replay starts with is the one it ends with. -/
theorem Change.recorded {m m' : Machine τ α σ} (h : Change origins m m') :
    m'.driver.state.recorded = m.driver.state.recorded := by
  cases h with
  | quiet ds hclocks hstate => rw [hstate]
  | seed he hmid ho hclocks hstate => rw [hstate]; rfl
  | compute he ha hc hclocks hstate => rw [hstate]; rfl
  | send he ha hc henv hclocks heff => exact heff.recorded
  | recv ds he ha hn ht hop hmid henv hc hclocks hstate => rw [hstate]; rfl

theorem Reached.recorded {m : Machine τ α σ} (h : Reached sys log timeline m) :
    m.driver.state.recorded = .build log := by
  induction h with
  | entry => rfl
  | step _ hnext ih => rw [(next_change hnext).recorded, ih]

/-- The world emits still to be seeded are those from the current position on. -/
theorem Reached.emits {m : Machine τ α σ} (h : Reached sys log timeline m) :
    m.emits = ((RecordedIndex.build log).emitsByActor "world").drop m.position := by
  induction h with
  | entry => rfl
  | @step m m' _ hnext ih =>
    cases next_step hnext with
    | @seed we wes he =>
      rw [he] at ih
      rw [← List.tail_drop, ← ih]
      rfl
    | act he ha => exact ih
    | start he ha hn hcall => exact ih
    | serve he ha hn ht hrecv => exact ih

/-! ### Actors -/

variable {m m' : Machine τ α σ}

omit [Counter] in
theorem call_mem {d : Driver τ α σ} {dst : ActorId} {msg : Option (Boxed τ α)}
    {p : Driver τ α σ × List (Action (Addr τ) α)} (h : d.call dst msg = .ok p) :
    dst ∈ d.actors := by
  unfold Driver.call at h
  split at h
  · cases h
  · rename_i t ht
    exact (getElem_of_getElem? ht).1

/-- Serving a recorded event runs rebuilt actors only, and without a report the event's own. -/
theorem recv_ok {d : Driver τ α σ} {ev : CausalEvent} {p : Driver τ α σ × List (Action (Addr τ) α)}
    (h : d.recv ev = .ok p) : (∀ a, a ∈ p.1.actors ↔ a ∈ d.actors) ∧
      (p.2 ≠ [] → ev.actor ∈ d.actors) ∧
      (p.1.state.divergences = [] →
        d.state.divergences = [] ∧ (ev.op = .recv → ev.actor ∈ d.actors)) := by
  unfold Driver.recv at h
  split at h
  · rename_i hop
    cases h
    exact ⟨fun a => Iff.rfl, fun hne => absurd rfl hne, fun hs => ⟨hs, fun hop' => absurd hop' hop⟩⟩
  · split at h
    · cases h
      exact ⟨fun a => Iff.rfl, fun hne => absurd rfl hne, fun hs => by simp at hs⟩
    · rename_i n hmid
      split at h
      · cases h
        exact ⟨fun a => Iff.rfl, fun hne => absurd rfl hne, fun hs => by simp at hs⟩
      · rename_i env henv
        dsimp only at h
        split at h
        · cases h
          exact ⟨fun a => Iff.rfl, fun hne => absurd rfl hne, fun hs => by simp at hs⟩
        · rename_i hactor
          obtain ⟨-, hstate, hactors⟩ := call_ok h
          have hmem : ev.actor ∈ d.actors := not_not.mp hactor
          refine ⟨hactors, fun _ => hmem, fun hs => ⟨?_, fun _ => hmem⟩⟩
          rw [hstate] at hs
          exact (ReplayState.verify_silent hs).1

/-- A report is never withdrawn. -/
theorem next_silent (h : m.next origins = some (.ok m'))
    (hs : m'.driver.state.divergences = []) : m.driver.state.divergences = [] := by
  cases next_step h with
  | seed he => exact (seedOrigin_silent hs).1
  | act he ha => exact perform_silent hs
  | start he ha hn hcall =>
    obtain ⟨-, hstate, -⟩ := call_ok hcall
    rwa [hstate] at hs
  | serve he ha hn ht hrecv => exact ((recv_ok hrecv).2.2 hs).1

/-- Only rebuilt actors run, and without a report only they produce. -/
structure Housed (sys : ReplaySystem τ α σ) (m : Machine τ α σ) : Prop where
  actors : ∀ a, a ∈ m.driver.actors ↔ a ∈ sys.actors
  current : m.actions ≠ [] → m.current ∈ sys.actors
  rebuilt : m.driver.state.divergences = [] →
    ∀ e ∈ m.driver.state.journal.events, e.actor ∈ sys.actors

theorem Housed.step (h : m.Housed sys) (hnext : m.next sys.origins = some (.ok m')) :
    m'.Housed sys := by
  refine ⟨fun a => ?_, fun hne => ?_, fun hs => ?_⟩
  · cases next_step hnext with
    | seed he => exact h.actors a
    | act he ha => exact h.actors a
    | start he ha hn hcall => exact ((call_ok hcall).2.2 a).trans (h.actors a)
    | serve he ha hn ht hrecv => exact ((recv_ok hrecv).1 a).trans (h.actors a)
  · cases next_step hnext with
    | seed he => exact h.current hne
    | act he ha => exact h.current (by rw [ha]; simp)
    | start he ha hn hcall => exact (h.actors _).mp (call_mem hcall)
    | serve he ha hn ht hrecv => exact (h.actors _).mp ((recv_ok hrecv).2.1 hne)
  · have hold := h.rebuilt (next_silent hnext hs)
    have hsnoc : ∀ e : CausalEvent, e.actor ∈ sys.actors →
        m'.driver.state.journal.events = m.driver.state.journal.events ++ [e] →
        ∀ f ∈ m'.driver.state.journal.events, f.actor ∈ sys.actors := by
      intro e he heq f hf
      rw [heq] at hf
      rcases List.mem_append.mp hf with hf | hf
      · exact hold f hf
      · rwa [List.mem_singleton.mp hf]
    cases next_change hnext with
    | quiet ds hclocks hstate =>
      rw [hstate]
      exact hold
    | seed he hmid ho hclocks hstate =>
      rw [hstate]
      exact hold
    | @compute c he ha hc hclocks hstate =>
      refine hsnoc (computeEvent m.current c.seq c.clock c.lamport.val)
        (h.current fun hnil => ?_) (by rw [hstate]; rfl)
      rw [hnil] at ha
      cases ha
    | @send c addr msg env he ha hc henv hclocks heff =>
      refine hsnoc (emitEvent m.current c.seq env) (h.current fun hnil => ?_)
        (by rw [heff.journal])
      rw [hnil] at ha
      cases ha
    | @recv ev n c env ds he ha hn ht hop hmid henv hc hclocks hstate =>
      refine hsnoc (recvEvent ev.actor c.seq c.clock c.lamport.val env) ?_ (by rw [hstate]; rfl)
      have hserved : ∀ p, m.driver.recv ev = .ok p → p.1.state.divergences = [] →
          ev.actor ∈ sys.actors := fun p hp hs =>
        (h.actors _).mp (((recv_ok hp).2.2 hs).2 hop)
      cases next_step hnext with
      | seed he' =>
        rw [he'] at he
        cases he
      | act _ ha' =>
        rw [ha'] at ha
        cases ha
      | start _ _ hn' =>
        rw [hn'] at hn
        cases hn
      | serve _ _ _ ht' hrecv =>
        rw [ht'] at ht
        cases ht
        exact hserved _ hrecv hs

theorem Reached.housed (hm : Reached sys log timeline m) : m.Housed sys := by
  induction hm with
  | entry => exact ⟨fun a => Iff.rfl, fun hne => absurd rfl hne, fun _ e he => (by cases he)⟩
  | step _ hnext ih => exact ih.step hnext

/-! ### Evaluation -/

/-- The states of the next `k` steps, the present one first. -/
def trace (origins : List (ActorId × Boxed τ α)) : Nat → Machine τ α σ → List (Machine τ α σ)
  | 0, m => [m]
  | k + 1, m =>
    match m.next origins with
    | some (.ok m') => m :: trace origins k m'
    | _ => [m]

theorem Reached.of_mem_trace {k : Nat} : ∀ {m m' : Machine τ α σ}, Reached sys log timeline m →
    m' ∈ m.trace sys.origins k → Reached sys log timeline m' := by
  induction k with
  | zero =>
    intro m m' h hmem
    rw [List.mem_singleton.mp hmem]
    exact h
  | succ k ih =>
    intro m m' h hmem
    unfold trace at hmem
    split at hmem
    · rename_i m₁ hnext
      rcases List.mem_cons.mp hmem with rfl | hmem
      · exact h
      · exact ih (h.step hnext) hmem
    · rw [List.mem_singleton.mp hmem]
      exact h

theorem self_mem_trace (origins : List (ActorId × Boxed τ α)) (k : Nat) (m : Machine τ α σ) :
    m ∈ m.trace origins k := by
  cases k with
  | zero => exact List.mem_singleton_self m
  | succ k =>
    unfold trace
    split <;> simp

/-- A trace that stops early is closed under steps. -/
theorem next_mem_trace {k : Nat} : ∀ {m₀ m m' : Machine τ α σ},
    (m₀.trace origins k).length ≤ k → m ∈ m₀.trace origins k →
    m.next origins = some (.ok m') → m' ∈ m₀.trace origins k := by
  induction k with
  | zero =>
    intro m₀ m m' hlen
    simp [trace] at hlen
  | succ k ih =>
    intro m₀ m m' hlen hmem hnext
    have hstops : (∀ m₁, m₀.next origins ≠ some (.ok m₁)) → m₀.trace origins (k + 1) = [m₀] := by
      intro hstop
      unfold trace
      split
      · rename_i m₁ hnext₁
        exact absurd hnext₁ (hstop m₁)
      · rfl
    by_cases hstop : ∀ m₁, m₀.next origins ≠ some (.ok m₁)
    · rw [hstops hstop, List.mem_singleton] at hmem
      rw [hmem] at hnext
      exact absurd hnext (hstop m')
    · obtain ⟨m₁, hnext₁⟩ := not_forall_not.mp hstop
      have heq : m₀.trace origins (k + 1) = m₀ :: m₁.trace origins k := by
        rw [trace, hnext₁]
      rw [heq] at hlen hmem ⊢
      refine List.mem_cons_of_mem _ ?_
      rcases List.mem_cons.mp hmem with rfl | hmem
      · cases hnext₁.symm.trans hnext
        exact self_mem_trace origins k _
      · exact ih (Nat.le_of_succ_le_succ hlen) hmem hnext

/-- A replay that stops within `k` steps goes through the states of its trace. -/
theorem Reached.mem_trace {k : Nat}
    (hlen : ((init sys log timeline).trace sys.origins k).length ≤ k) {m : Machine τ α σ}
    (hm : Reached sys log timeline m) : m ∈ (init sys log timeline).trace sys.origins k := by
  induction hm with
  | entry => exact self_mem_trace sys.origins k _
  | step _ hnext ih => exact next_mem_trace hlen ih hnext

end Machine

end Lichtung
