import Lichtung.Replay.ClockOrder
import Lichtung.Replay.Machine

/-!
# How large the stamps of a replay grow

A replay adds: own clock component, lamport and seq at every event it stamps, the send counter at
every send.  Nothing bounds the stamps of a recorded world emit, and they go unchecked into the
origin envelope, so an addition can leave the range of a `u64`.  Every sum is at most the largest
stamp of a seeded world emit plus the number of events stamped.

Principal results: `Machine.Reached.bounded` (the invariant) and `restamp_bounded`.
-/

namespace Lichtung

variable {τ α σ : Type}

/-! ## Stamps below a bound -/

/-- Clock and lamport stay below `B`. -/
structure Stamps.Below (c : Stamps) (B : Nat) : Prop where
  clock : ∀ k, c.clock.get k ≤ B
  lamport : c.lamport.val ≤ B

/-- The stamps of an envelope stay below `B`. -/
structure Envelope.Below (env : Envelope τ α) (B : Nat) : Prop where
  clock : ∀ k, env.vclock.get k ≤ B
  lamport : env.lamport.val ≤ B

namespace Stamps

variable {c : Stamps} {B B' : Nat}

theorem below_zero : zero.Below 0 :=
  ⟨fun k => (VectorClock.get_new k).le, Nat.le_refl _⟩

theorem Below.mono (h : c.Below B) (hle : B ≤ B') : c.Below B' :=
  ⟨fun k => (h.clock k).trans hle, h.lamport.trans hle⟩

theorem Below.bump [Counter] (h : c.Below B) (id : ActorId) : (c.bump id).Below (B + 1) where
  clock k := by
    rw [bump_get_succ]
    split
    · exact (Counter.succ_le _).trans (Nat.succ_le_succ (h.clock id))
    · exact (h.clock k).trans (Nat.le_succ B)
  lamport := (Counter.succ_le _).trans (Nat.succ_le_succ h.lamport)

theorem Below.receive [Counter] (h : c.Below B) {env : Envelope τ α} (henv : env.Below B)
    (id : ActorId) : (c.receive id env).Below (B + 1) where
  clock k := by
    rw [receive_get_succ]
    split
    · exact (Counter.succ_le _).trans (Nat.succ_le_succ (max_le (h.clock id) (henv.clock id)))
    · exact (max_le (h.clock k) (henv.clock k)).trans (Nat.le_succ B)
  lamport := (Counter.succ_le _).trans (Nat.succ_le_succ (max_le h.lamport henv.lamport))

/-- The three sums of an event stamped: own clock component, lamport, seq.  The other component and
lamport are those of a message received, or 0. -/
def sums (c : Stamps) (a : ActorId) (component lamport : Nat) : List Nat :=
  [max (c.clock.get a) component + 1, max c.lamport.val lamport + 1, c.seq + 1]

/-- Sums in range are the same in every build. -/
theorem bump_of_lt [Counter] {a : ActorId} (h : ∀ x ∈ c.sums a 0 0, x < 2 ^ 64) :
    c.bump a = @bump .unbounded c a := by
  simp only [sums, Nat.max_zero, List.forall_mem_cons, List.not_mem_nil, false_implies,
    implies_true, and_true] at h
  obtain ⟨hclock, hlamport, hseq⟩ := h
  simp only [bump, VectorClock.increment, Lamport.tick, Counter.succ_of_lt _ hclock,
    Counter.succ_of_lt _ hlamport, Counter.succ_of_lt _ hseq]
  rfl

theorem receive_of_lt [Counter] {a : ActorId} {env : Envelope τ α}
    (h : ∀ x ∈ c.sums a (env.vclock.get a) env.lamport.val, x < 2 ^ 64) :
    c.receive a env = @receive _ _ .unbounded c a env := by
  simp only [sums, List.forall_mem_cons, List.not_mem_nil, false_implies, implies_true,
    and_true] at h
  obtain ⟨hclock, hlamport, hseq⟩ := h
  rw [← VectorClock.get_merge] at hclock
  simp only [receive, VectorClock.increment, Lamport.update, Counter.succ_of_lt _ hclock,
    Counter.succ_of_lt _ hlamport, Counter.succ_of_lt _ hseq]
  rfl

end Stamps

namespace Envelope

variable {env : Envelope τ α} {B B' : Nat}

theorem Below.mono (h : env.Below B) (hle : B ≤ B') : env.Below B' :=
  ⟨fun k => (h.clock k).trans hle, h.lamport.trans hle⟩

theorem below_of_stamps {c : Stamps} (h : c.Below B) (id : ActorId) (n : Nat) (addr : Addr τ)
    (msg : α) : (c.envelope id n addr msg).Below B :=
  ⟨h.clock, h.lamport⟩

end Envelope

/-! ## The sums of one step -/

namespace Driver

/-- The envelope the recv loop finds for a recorded event. -/
def awaited (d : Driver τ α σ) (ev : CausalEvent) : Option (Envelope τ α) :=
  if ev.op ≠ .recv then none else ev.parsedMid.bind d.state.pending

end Driver

namespace Machine

/-- The sums of the next step, before anything is made of those out of range: what `increment` and
`tick` or `update` compute, that of `seq`, and that of `send_count`. -/
def additions (m : Machine τ α σ) : List Nat :=
  match m.emits, m.actions, m.names, m.timeline with
  | [], .compute :: _, _, _ => (m.driver.clocks m.current).sums m.current 0 0
  | [], .send _ _ :: _, _, _ =>
    (m.driver.clocks m.current).sums m.current 0 0 ++ [m.driver.state.sendCount m.current + 1]
  | [], [], [], ev :: _ =>
    (m.driver.awaited ev).elim [] fun env =>
      (m.driver.clocks ev.actor).sums ev.actor (env.vclock.get ev.actor) env.lamport.val
  | _, _, _, _ => []

/-! ## The invariant -/

/-- The number of events stamped so far. -/
def stamped (m : Machine τ α σ) : Nat := m.driver.state.journal.events.length

/-- With `M` above the stamps of the seeded origins: stamps grow by at most one an event. -/
structure Bounded (M : Nat) (m : Machine τ α σ) : Prop where
  stamps : ∀ a, (m.driver.clocks a).Below (M + m.stamped)
  seq : ∀ a, (m.driver.clocks a).seq ≤ m.stamped
  sends : ∀ a, m.driver.state.sendCount a ≤ m.stamped
  waiting : ∀ k env, m.driver.state.pending k = some env → env.Below (M + m.stamped)

end Machine

/-- No world emit that an origin is supplied for carries a stamp above `M`. -/
def OriginsBelow (sys : ReplaySystem τ α σ) (log : List CausalEvent) (M : Nat) : Prop :=
  ∀ (k : Nat) (we : CausalEvent),
    ((RecordedIndex.build log).emitsByActor "world")[k]? = some we → k < sys.origins.length →
    we.parsedMid ≠ none → we.lamport ≤ M ∧ ∀ a, we.vclock.components a ≤ M

namespace Machine

variable {M : Nat} {m m' : Machine τ α σ}

theorem Bounded.local (h : m.Bounded M) {a : ActorId} {c : Stamps}
    (hc : c.Below (M + (m.stamped + 1))) (hseq : c.seq ≤ m.stamped + 1)
    (hclocks : m'.driver.clocks = Function.update m.driver.clocks a c)
    (hstamped : m'.stamped = m.stamped + 1)
    (hsends : ∀ b, m'.driver.state.sendCount b ≤ m.stamped + 1)
    (hwaiting : ∀ k env, m'.driver.state.pending k = some env →
      m.driver.state.pending k = some env ∨ env.Below (M + (m.stamped + 1))) : m'.Bounded M where
  stamps b := by
    rw [hclocks, hstamped]
    by_cases hb : b = a
    · rw [hb, Function.update_self]
      exact hc
    · rw [Function.update_of_ne hb]
      exact (h.stamps b).mono (by omega)
  seq b := by
    rw [hclocks, hstamped]
    by_cases hb : b = a
    · rw [hb, Function.update_self]
      exact hseq
    · rw [Function.update_of_ne hb]
      exact (h.seq b).trans (Nat.le_succ _)
  sends b := by
    rw [hstamped]
    exact hsends b
  waiting k env hk := by
    rw [hstamped]
    rcases hwaiting k env hk with hold | hnew
    · exact (h.waiting k env hold).mono (by omega)
    · exact hnew

/-- A step that stamps nothing. -/
theorem Bounded.still (h : m.Bounded M) (hclocks : m'.driver.clocks = m.driver.clocks)
    (hstamped : m'.stamped = m.stamped)
    (hsends : m'.driver.state.sendCount = m.driver.state.sendCount)
    (hwaiting : ∀ k env, m'.driver.state.pending k = some env →
      m.driver.state.pending k = some env ∨ env.Below M) : m'.Bounded M where
  stamps b := by
    rw [hclocks, hstamped]
    exact h.stamps b
  seq b := by
    rw [hclocks, hstamped]
    exact h.seq b
  sends b := by
    rw [hsends, hstamped]
    exact h.sends b
  waiting k env hk := by
    rw [hstamped]
    rcases hwaiting k env hk with hold | hnew
    · exact h.waiting k env hold
    · exact hnew.mono (Nat.le_add_right ..)

variable [Counter] [DecidableEq τ] {sys : ReplaySystem τ α σ} {log timeline : List CausalEvent}

/-- The envelope of a supplied origin. -/
theorem origin_below (hM : OriginsBelow sys log M) (hm : Reached sys log timeline m)
    {we : CausalEvent} {n : Nat} {o : ActorId × Boxed τ α} (he : m.emits.head? = some we)
    (hmid : we.parsedMid = some n) (ho : sys.origins[m.position]? = some o) :
    (ReplayState.originEnvelope we n o).Below M := by
  rw [hm.emits, List.head?_drop] at he
  have hpos : m.position < sys.origins.length := (List.getElem?_eq_some_iff.mp ho).1
  obtain ⟨hlamport, hclock⟩ := hM m.position we he hpos (by rw [hmid]; exact Option.some_ne_none n)
  refine ⟨fun k => ?_, hlamport⟩
  show (vclockFrom we.vclock).get k ≤ M
  rw [get_vclockFrom]
  exact hclock k

/-- One step keeps the bound. -/
theorem Bounded.step (h : m.Bounded M) (hM : OriginsBelow sys log M)
    (hm : Reached sys log timeline m) (hnext : m.next sys.origins = some (.ok m')) :
    m'.Bounded M := by
  cases next_change hnext with
  | quiet ds hclocks hstate =>
    refine h.still hclocks ?_ ?_ fun k env hk => .inl ?_
    · rw [stamped, stamped, hstate]
    · rw [hstate]
    · rwa [hstate] at hk
  | @seed we n o he hmid ho hclocks hstate =>
    refine h.still hclocks ?_ ?_ fun k env hk => ?_
    · rw [stamped, stamped, hstate]
      rfl
    · rw [hstate]
      rfl
    · rw [hstate] at hk
      have hk : Function.update m.driver.state.pending n
        (some (ReplayState.originEnvelope we n o)) k = some env := hk
      rw [Function.update_apply] at hk
      split at hk
      · cases hk
        exact .inr (origin_below hM hm he hmid ho)
      · exact .inl hk
  | @compute c he ha hc hclocks hstate =>
    refine h.local ?_ ?_ hclocks ?_ (fun b => ?_) fun k env hk => .inl ?_
    · rw [hc]
      exact (h.stamps m.current).bump m.current
    · rw [hc]
      exact (Counter.succ_le _).trans (Nat.succ_le_succ (h.seq m.current))
    · rw [stamped, stamped, hstate]
      exact List.length_append
    · rw [hstate]
      exact (h.sends b).trans (Nat.le_succ _)
    · rwa [hstate] at hk
  | @send c addr msg env he ha hc henv hclocks heff =>
    have hbelow : c.Below (M + (m.stamped + 1)) := by
      rw [hc]
      exact (h.stamps m.current).bump m.current
    refine h.local hbelow ?_ hclocks ?_ (fun b => ?_) fun k env' hk => ?_
    · rw [hc]
      exact (Counter.succ_le _).trans (Nat.succ_le_succ (h.seq m.current))
    · rw [stamped, stamped, heff.journal]
      exact List.length_append
    · have hb := h.sends b
      have hcur := h.sends m.current
      rw [heff.sendCount, Function.update_apply]
      split
      · exact Nat.succ_le_succ hcur
      · exact hb.trans (Nat.le_succ _)
    · rw [heff.pending] at hk
      have hk : Function.update m.driver.state.pending env.msgId (some env) k = some env' := hk
      rw [Function.update_apply] at hk
      split at hk
      · obtain rfl := Option.some.inj hk
        rw [henv]
        exact .inr (Envelope.below_of_stamps hbelow ..)
      · exact .inl hk
  | @recv ev n c env ds he ha hn ht hop hmid henv hc hclocks hstate =>
    refine h.local ?_ ?_ hclocks ?_ (fun b => ?_) fun k env' hk => .inl ?_
    · rw [hc]
      exact (h.stamps ev.actor).receive (h.waiting n env henv) ev.actor
    · rw [hc]
      exact (Counter.succ_le _).trans (Nat.succ_le_succ (h.seq ev.actor))
    · rw [stamped, stamped, hstate]
      exact List.length_append
    · rw [hstate]
      exact (h.sends b).trans (Nat.le_succ _)
    · rw [hstate] at hk
      have hk : Function.update m.driver.state.pending n none k = some env' := hk
      rw [Function.update_apply] at hk
      split at hk
      · cases hk
      · exact hk

/-- **The invariant of every replay, also one that panics.** -/
theorem Reached.bounded (hM : OriginsBelow sys log M) (hm : Reached sys log timeline m) :
    m.Bounded M := by
  induction hm with
  | entry =>
    exact ⟨fun a => Stamps.below_zero.mono (Nat.zero_le _), fun a => Nat.le_refl _,
      fun a => Nat.le_refl _, fun k env hk => by cases hk⟩
  | step hm hnext ih => exact ih.step hM hm hnext

omit [Counter] [DecidableEq τ] in
theorem Bounded.sums (h : m.Bounded M) (a : ActorId) {component lamport : Nat}
    (hc : component ≤ M + m.stamped) (hl : lamport ≤ M + m.stamped) :
    ∀ x ∈ (m.driver.clocks a).sums a component lamport, x ≤ M + m.stamped + 1 := by
  have hclock := (h.stamps a).clock a
  have hlamport := (h.stamps a).lamport
  have hseq := h.seq a
  intro x hx
  simp only [Stamps.sums, List.mem_cons, List.not_mem_nil, or_false] at hx
  omega

omit [Counter] [DecidableEq τ] in
/-- The sums of the next step. -/
theorem Bounded.additions (h : m.Bounded M) : ∀ x ∈ m.additions, x ≤ M + m.stamped + 1 := by
  intro x hx
  unfold Machine.additions at hx
  split at hx
  · exact h.sums m.current (Nat.zero_le _) (Nat.zero_le _) x hx
  · rcases List.mem_append.mp hx with hx | hx
    · exact h.sums m.current (Nat.zero_le _) (Nat.zero_le _) x hx
    · have := h.sends m.current
      rw [List.mem_singleton.mp hx]
      omega
  · rename_i ev _ _ _ _ _
    cases henv : m.driver.awaited ev with
    | none =>
      rw [henv] at hx
      cases hx
    | some env =>
      rw [henv] at hx
      unfold Driver.awaited at henv
      split at henv
      · cases henv
      · obtain ⟨n, -, hn⟩ := Option.bind_eq_some_iff.mp henv
        have hbelow := h.waiting n env hn
        exact h.sums ev.actor (hbelow.clock ev.actor) hbelow.lamport x hx
  · cases hx

end Machine

/-- What the types of the code say of a log: its counters are `u64`s, its length is a `usize`. -/
structure Wire (log : List CausalEvent) : Prop where
  length : log.length < 2 ^ 64
  counters : ∀ e ∈ log, e.seq < 2 ^ 64 ∧ e.lamport < 2 ^ 64 ∧ ∀ a, e.vclock.components a < 2 ^ 64

section Restamp

open Machine

variable [Counter] [DecidableEq τ] {sys : ReplaySystem τ α σ} {log timeline : List CausalEvent}
  {r : Replayed}

/-- A step whose sums are in range is the same in every build. -/
theorem next_of_lt {m : Machine τ α σ} (origins : List (ActorId × Boxed τ α))
    (h : ∀ x ∈ m.additions, x < 2 ^ 64) : m.next origins = @next _ _ _ .unbounded _ origins m := by
  obtain ⟨d, k, emits, current, actions, names, timeline⟩ := m
  cases emits with
  | cons we wes => rfl
  | nil =>
    cases actions with
    | cons a as =>
      cases a with
      | compute =>
        have hbump := Stamps.bump_of_lt h
        simp only [next, Driver.perform, Context.perform, Context.compute, hbump]
      | send addr msg =>
        have hbump := Stamps.bump_of_lt fun x hx => h x (List.mem_append_left _ hx)
        simp only [next, Driver.perform, Context.perform, Context.send, hbump]
    | nil =>
      cases names with
      | cons name names => rfl
      | nil =>
        cases timeline with
        | nil => rfl
        | cons ev evs =>
          have hserve : d.recv ev = @Driver.recv _ _ _ _ .unbounded ev d := by
            unfold Driver.recv
            by_cases hop : ev.op = .recv
            · rw [if_neg (not_not.mpr hop), if_neg (not_not.mpr hop)]
              cases hmid : ev.parsedMid with
              | none => rfl
              | some n =>
                dsimp only
                cases henv : d.state.pending n with
                | none => rfl
                | some env =>
                  have hawaited : d.awaited ev = some env := by
                    rw [Driver.awaited, if_neg (not_not.mpr hop), hmid, Option.bind_some, henv]
                  have hsums : ∀ x ∈ (d.awaited ev).elim [] fun env =>
                      (d.clocks ev.actor).sums ev.actor (env.vclock.get ev.actor) env.lamport.val,
                      x < 2 ^ 64 := h
                  rw [hawaited] at hsums
                  have hreceive := Stamps.receive_of_lt hsums
                  dsimp only
                  rw [Driver.stampRecv, hreceive]
                  rfl
            · rw [if_pos hop, if_pos hop]
          simp only [next, hserve]

/-- So is what is left of a replay all of whose sums are in range. -/
theorem finish_of_lt (h : ∀ m, Reached sys log timeline m → ∀ x ∈ m.additions, x < 2 ^ 64)
    {m : Machine τ α σ} (hm : Reached sys log timeline m) :
    m.finish sys.origins = @finish _ _ _ .unbounded _ sys.origins m := by
  have hnext := next_of_lt sys.origins (h m hm)
  have hfin := m.finish_next sys.origins
  have hfin' := @finish_next _ _ _ .unbounded _ sys.origins m
  rw [← hnext] at hfin'
  cases hn : m.next sys.origins with
  | none =>
    rw [hn] at hfin hfin'
    exact hfin.trans hfin'.symm
  | some x =>
    cases x with
    | error e =>
      rw [hn] at hfin hfin'
      exact hfin.trans hfin'.symm
    | ok m' =>
      have : m'.left < m.left := next_left hn
      rw [hn] at hfin hfin'
      exact hfin.trans ((finish_of_lt h (hm.step hn)).trans hfin'.symm)
termination_by m.left
decreasing_by exact this

/-- **No sum of a replay exceeds the stamps of the seeded origins by more than the number of events
stamped**, whatever the build makes of a sum out of range; and where no sum can be out of range, the
replay is that of unbounded counters. -/
theorem restamp_bounded (hlog : replayLog log = .ok r) {M : Nat} (hM : OriginsBelow sys log M) :
    (∀ m, Reached sys log r.timeline m → ∀ x ∈ m.additions, x ≤ M + m.stamped + 1) ∧
    ((∀ m, Reached sys log r.timeline m → M + m.stamped + 1 < 2 ^ 64) →
      sys.replay log = @ReplaySystem.replay _ _ _ _ .unbounded sys log) := by
  have hbound : ∀ m, Reached sys log r.timeline m → ∀ x ∈ m.additions, x ≤ M + m.stamped + 1 :=
    fun m hm => (hm.bounded hM).additions
  refine ⟨hbound, fun hrange => ?_⟩
  have hfin := finish_of_lt (fun m hm x hx => (hbound m hm x hx).trans_lt (hrange m hm))
    (Reached.entry : Reached sys log r.timeline _)
  have hre : sys.reexecute log r.timeline =
      @ReplaySystem.reexecute _ _ _ _ .unbounded sys log r.timeline := by
    rw [reexecute_eq, hfin]
    exact (@reexecute_eq _ _ _ .unbounded _ sys log r.timeline).symm
  simp only [ReplaySystem.replay, ReplaySystem.replayRun, hlog, hre]

end Restamp

/-! ## An origin at the end of the range -/

/-- A relay and a sink, with one message from outside. -/
def suppliedSystem : ReplaySystem Unit Nat Unit := (relaySystem "sink").origin ⟨"relay", ()⟩ 1

theorem suppliedSystem_below : OriginsBelow suppliedSystem (relayLog "sink") 1 := by
  intro k we hwe _ _
  have hemits : (RecordedIndex.build (relayLog "sink")).emitsByActor "world" =
      (relayLog "sink").take 1 := by decide
  rw [hemits] at hwe
  obtain rfl := List.mem_singleton.mp (List.mem_of_getElem? hwe)
  exact ⟨by decide, (Stamps.below_zero.bump "world").clock⟩

theorem restamp_bounded_relay : ∃ r, replayLog (relayLog "sink") = .ok r ∧
    ∀ m, Machine.Reached suppliedSystem (relayLog "sink") r.timeline m →
      ∀ x ∈ m.additions, x ≤ 1 + m.stamped + 1 := by
  have hok : (replayLog (relayLog "sink")).toOption.isSome = true := by decide
  cases hr : replayLog (relayLog "sink") with
  | error e => rw [hr] at hok; cases hok
  | ok r => exact ⟨r, rfl, (restamp_bounded hr suppliedSystem_below).1⟩

/-- A message from outside whose lamport is the largest `u64`, and its receipt. -/
def lastLamportLog : List CausalEvent :=
  let origin := { (Stamps.zero.bump "world").envelope "world" 1 (⟨"sink", ()⟩ : Addr Unit) 1 with
    lamport := ⟨2 ^ 64 - 1⟩ }
  let c := Stamps.zero.receive "sink" origin
  [emitEvent "world" 1 origin, recvEvent "sink" c.seq c.clock 0 origin]

def sinkSystem : ReplaySystem Unit Nat Unit :=
  (ReplaySystem.new.spawn "sink" ⟨sink, ()⟩).origin ⟨"sink", ()⟩ 1

theorem lastLamportLog_wire : Wire lastLamportLog where
  length := by decide
  counters := by
    have hworld := (Stamps.below_zero.bump "world").clock
    intro e he
    rcases List.mem_cons.mp he with rfl | he
    · exact ⟨by decide, by decide, fun a => (hworld a).trans_lt (by decide)⟩
    · obtain rfl := List.mem_singleton.mp he
      refine ⟨by decide, by decide, fun a => ?_⟩
      have hzero := Stamps.below_zero.clock
      -- the lamport of the origin does not reach the clock
      show (Stamps.zero.receive "sink"
        { (Stamps.zero.bump "world").envelope "world" 1 (⟨"sink", ()⟩ : Addr Unit) 1 with
          lamport := ⟨2 ^ 64 - 1⟩ }).clock.get a < 2 ^ 64
      rw [Stamps.receive_get]
      have hmax : ∀ k, max (Stamps.zero.clock.get k) ((Stamps.zero.bump "world").clock.get k) ≤ 1 :=
        fun k => max_le ((hzero k).trans (Nat.zero_le 1)) (hworld k)
      have hsink := hmax "sink"
      have ha := hmax a
      split
      · exact (Nat.succ_le_succ hsink).trans_lt (by decide)
      · exact ha.trans_lt (by decide)

/-- The log is accepted, and stamping its recv adds one to the largest `u64`: in a release build the
lamport of the recv is 0. -/
theorem restamp_overflows : ¬ ∀ (log : List CausalEvent) (r : Replayed)
    (sys : ReplaySystem Unit Nat Unit), Wire log → replayLog log = .ok r →
      ∀ m, @Machine.Reached _ _ _ Counter.wrapping _ sys log r.timeline m →
        ∀ x ∈ m.additions, x < 2 ^ 64 := by
  intro hall
  have hok : (replayLog lastLamportLog).toOption.map (·.timeline) = some lastLamportLog := by decide
  have hadd : (@Machine.trace _ _ _ Counter.wrapping _ sinkSystem.origins 3
      (.init sinkSystem lastLamportLog lastLamportLog))[3]?.map Machine.additions =
        some [1, 2 ^ 64, 1] := by decide
  cases hr : replayLog lastLamportLog with
  | error e => rw [hr] at hok; cases hok
  | ok r =>
    rw [hr] at hok
    obtain ⟨m, hm, hx⟩ := Option.map_eq_some_iff.mp hadd
    have htimeline : r.timeline = lastLamportLog := Option.some.inj hok
    have hreached :
        @Machine.Reached _ _ _ Counter.wrapping _ sinkSystem lastLamportLog r.timeline m := by
      rw [htimeline]
      let _ := Counter.wrapping
      exact Machine.Reached.entry.of_mem_trace (List.mem_of_getElem? hm)
    have := hall _ r sinkSystem lastLamportLog_wire hr m hreached (2 ^ 64) (by rw [hx]; simp)
    exact lt_irrefl _ this

end Lichtung
