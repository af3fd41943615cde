import Lichtung.Replay.Engine

/-!
# Handler re-execution

Model of `crates/lichtung-replay/src/reexec.rs`: the recorded index, `verify`, the replay backend,
and `ReplaySystem::replay` with its seeding loop, `started` pass, recv loop and completeness pass.

A `HashMap` is a function to `Option`, a `HashSet` of ids a `Finset`.  Handlers are total
functions, so the only panics are the two in the code: `expect("actor exists")` and the downcast
failure of `handle_any`.

The `Journal` is not in the code.  It lists what a run has produced, sent and consumed; the
replay never reads it, results about a replay speak of it.
-/

namespace Lichtung

/-! ## Wire ids -/

/-- `str::parse::<u64>`: an optional plus sign, then decimal digits of a value below 2^64. -/
def parseU64 (cs : List Char) : Option Nat :=
  let ds := if cs.head? = some '+' then cs.tail else cs
  let n := Nat.ofDigitChars 10 ds 0
  if ds ≠ [] ∧ ds.all Char.isDigit = true ∧ n < 2 ^ 64 then some n else none

/-- Parse a wire `msg_id` ("m<digits>") back to its numeric id. -/
def parseMid (s : String) : Option Nat :=
  match s.toList with
  | 'm' :: ds => parseU64 ds
  | _ => none

/-- `msg_id.as_deref().and_then(parse_mid)`. -/
def CausalEvent.parsedMid (e : CausalEvent) : Option Nat := e.msgId.bind parseMid

theorem parseMid_repr (n : Nat) :
    parseMid ("m" ++ n.repr) = if n < 2 ^ 64 then some n else none := by
  have hdigits : ∀ c ∈ Nat.toDigits 10 n, c.isDigit = true := fun c hc =>
    Nat.isDigit_of_mem_toDigits (by decide) (by decide) hc
  have hhead : (Nat.toDigits 10 n).head? ≠ some '+' := by
    intro h
    have := hdigits _ (List.mem_of_head? h)
    simp [Char.isDigit] at this
  have hlist : ("m" ++ n.repr).toList = 'm' :: Nat.toDigits 10 n := by
    rw [String.toList_append, Nat.toList_repr]; rfl
  have hne : Nat.toDigits 10 n ≠ [] := Nat.toDigits_ne_nil
  have hall : (Nat.toDigits 10 n).all Char.isDigit = true := List.all_eq_true.mpr hdigits
  simp only [parseMid, hlist, parseU64, if_neg hhead, Nat.ofDigitChars_ten_toDigits, hne, hall,
    ne_eq, not_false_eq_true, true_and]

namespace CausalEvent

/-- A msg_id as the recorder writes it: absent or `m<n>`. -/
def PlainMid (e : CausalEvent) : Prop := ∀ s, e.msgId = some s → ∃ n, mid n = some s

theorem parsedMid_mid {e : CausalEvent} {n : Nat} (h : e.msgId = mid n) (hn : n < 2 ^ 64) :
    e.parsedMid = some n := by
  rw [parsedMid, h, mid, Option.bind_some, parseMid_repr, if_pos hn]

/-- Parsing a plain msg_id gives the number it was written from. -/
theorem PlainMid.mid_parsed {e : CausalEvent} (h : e.PlainMid) {m : Nat}
    (hm : e.parsedMid = some m) : e.msgId = mid m := by
  obtain ⟨s, hs, hp⟩ := Option.bind_eq_some_iff.mp hm
  obtain ⟨n, hn⟩ := h s hs
  cases hn
  rw [parseMid_repr] at hp
  split at hp
  · cases hp; exact hs
  · cases hp

end CausalEvent

section Plain

variable {τ α : Type}

theorem emitEvent_plain (a : ActorId) (seq : Nat) (env : Envelope τ α) :
    (emitEvent a seq env).PlainMid := fun _ h => ⟨env.msgId, h⟩

theorem recvEvent_plain (a : ActorId) (seq : Nat) (clock : VectorClock) (lamport : Nat)
    (env : Envelope τ α) : (recvEvent a seq clock lamport env).PlainMid :=
  fun _ h => ⟨env.msgId, h⟩

theorem computeEvent_plain (a : ActorId) (seq : Nat) (clock : VectorClock) (lamport : Nat) :
    (computeEvent a seq clock lamport).PlainMid := fun _ h => by cases h

end Plain

/-- Rebuild a clock from a recorded one: zero entries are dropped by `set`. -/
def vclockFrom (map : StringMap) : VectorClock := map.foldl VectorClock.set .new

/-! ## The recorded index -/

structure RecordedIndex where
  byId : String → Option CausalEvent
  emitsByActor : String → List CausalEvent

namespace RecordedIndex

def empty : RecordedIndex := ⟨fun _ => none, fun _ => []⟩

/-- One turn of the loop in `build`: a later event of the same id replaces an earlier one. -/
def push (idx : RecordedIndex) (e : CausalEvent) : RecordedIndex where
  byId := Function.update idx.byId e.id (some e)
  emitsByActor :=
    if e.op = .emit then
      Function.update idx.emitsByActor e.actor (idx.emitsByActor e.actor ++ [e])
    else idx.emitsByActor

/-- `RecordedIndex::build`: events by id, and each actor's emits by seq. -/
def build (log : List CausalEvent) : RecordedIndex :=
  let idx := log.foldl push empty
  ⟨idx.byId, fun a => (idx.emitsByActor a).insertionSort fun e f => e.seq ≤ f.seq⟩

theorem foldl_push_byId (id : String) : ∀ (log : List CausalEvent) (idx : RecordedIndex),
    (log.foldl push idx).byId id = (log.reverse.find? fun e => e.id = id).or (idx.byId id)
  | [], idx => by simp
  | e :: log, idx => by
    rw [List.foldl_cons, foldl_push_byId id log, List.reverse_cons, List.find?_append]
    by_cases h : e.id = id
    · subst h; simp [push]
    · simp [push, h, Function.update_of_ne (Ne.symm h)]

theorem foldl_push_emits (a : String) : ∀ (log : List CausalEvent) (idx : RecordedIndex),
    (log.foldl push idx).emitsByActor a =
      idx.emitsByActor a ++ log.filter fun e => e.op = .emit ∧ e.actor = a
  | [], idx => by simp
  | e :: log, idx => by
    rw [List.foldl_cons, foldl_push_emits a log, List.filter_cons]
    by_cases hop : e.op = .emit
    · by_cases ha : e.actor = a
      · subst ha; simp [push, hop]
      · simp [push, hop, ha, Function.update_of_ne (Ne.symm ha)]
    · simp [push, hop]

/-- Whatever is found under an id is a recorded event of that id. -/
theorem build_byId_some {log : List CausalEvent} {id : String} {e : CausalEvent}
    (h : (build log).byId id = some e) : e ∈ log ∧ e.id = id := by
  have hf : (log.reverse.find? fun e => e.id = id).or none = some e := by
    rw [← h]; exact (foldl_push_byId id log empty).symm
  rw [Option.or_none] at hf
  exact ⟨List.mem_reverse.mp (List.mem_of_find?_eq_some hf), by simpa using List.find?_some hf⟩

/-- An event that shares its id with no other recorded one is found under it. -/
theorem build_byId_of_unique {log : List CausalEvent} {e : CausalEvent} (he : e ∈ log)
    (huniq : ∀ f ∈ log, f.id = e.id → f = e) : (build log).byId e.id = some e := by
  have hsome : ((build log).byId e.id).isSome := by
    have h := foldl_push_byId e.id log empty
    have hf : (log.reverse.find? fun f => f.id = e.id).isSome := by
      rw [List.find?_isSome]
      exact ⟨e, List.mem_reverse.mpr he, by simp⟩
    show ((log.foldl push empty).byId e.id).isSome
    rw [h, Option.isSome_or, hf, Bool.true_or]
  obtain ⟨f, hf⟩ := Option.isSome_iff_exists.mp hsome
  obtain ⟨hfm, hfid⟩ := build_byId_some hf
  rw [hf, huniq f hfm hfid]

/-- Where ids are distinct every event is found under its id. -/
theorem build_byId {log : List CausalEvent} (hids : (log.map (·.id)).Nodup) {e : CausalEvent}
    (he : e ∈ log) : (build log).byId e.id = some e :=
  build_byId_of_unique he fun _ hf hid => List.inj_on_of_nodup_map hids hf he hid

/-- An actor's emits of a log, by seq. -/
theorem build_emits (log : List CausalEvent) (a : String) :
    (build log).emitsByActor a =
      (log.filter fun e => e.op = .emit ∧ e.actor = a).insertionSort fun e f => e.seq ≤ f.seq := by
  show ((log.foldl push empty).emitsByActor a).insertionSort _ = _
  rw [foldl_push_emits]; rfl

theorem mem_build_emits {log : List CausalEvent} {a : String} {e : CausalEvent} :
    e ∈ (build log).emitsByActor a ↔ e ∈ log ∧ e.op = .emit ∧ e.actor = a := by
  rw [build_emits, List.mem_insertionSort, List.mem_filter, decide_eq_true_eq]

theorem build_emits_nodup {log : List CausalEvent} (h : log.Nodup) (a : String) :
    ((build log).emitsByActor a).Nodup := by
  rw [build_emits, (List.perm_insertionSort _ _).nodup_iff]
  exact h.filter _

end RecordedIndex

/-! ## Outcomes -/

/-- The `detail` texts of a divergence, with what the first one prints. -/
inductive Detail where
  | diverges (recordedOp : Op) (recordedVclock : StringMap) (replayedOp : Op)
      (replayedVclock : StringMap)
  | noCounterpart
  | moreSends
  | malformedWorldEmit
  | noOrigin
  | recvWithoutMsgId
  | noMessage
  | notRebuilt
  | notReproduced

/-- The wording, given the two `Debug` renderings. -/
def Detail.text (op : Op → String) (vclock : StringMap → String) : Detail → String
  | diverges o v o' v' => "re-executed event diverges from recording (recorded op " ++ op o ++
      ", vclock " ++ vclock v ++ "; replayed op " ++ op o' ++ ", vclock " ++ vclock v' ++ ")"
  | noCounterpart => "re-executed event has no recorded counterpart"
  | moreSends => "handler produced more sends than the recording"
  | malformedWorldEmit => "world emit has a malformed/absent msg_id"
  | noOrigin => "recorded a world origin with no re-supplied origin message"
  | recvWithoutMsgId => "recv has no msg_id"
  | noMessage => "no re-produced message for this recv (upstream divergence)"
  | notRebuilt => "recv for an actor not rebuilt in the ReplaySystem"
  | notReproduced => "recorded event was not re-produced by re-execution"

/-- A single mismatch between re-execution and recording. -/
structure Divergence where
  eventId : String
  detail : Detail

structure ReplayOutcome where
  replayed : Replayed
  divergences : List Divergence

def ReplayOutcome.isFaithful (o : ReplayOutcome) : Bool := o.divergences.isEmpty

/-- How `replay` ends without an outcome. -/
inductive Abort where
  | error (e : ReplayError)
  | panicked (message : String)
  deriving DecidableEq

/-! ## The state of a replay -/

/-- What a replay has done so far, oldest first: the events passed to `verify`, the world emits
seeded with their envelopes, the envelopes sent by handlers, and for each recorded recv the
envelope taken out of `pending`. -/
structure Journal (τ α : Type) where
  events : List CausalEvent
  seeded : List (CausalEvent × Envelope τ α)
  sent : List (Envelope τ α)
  consumed : List (CausalEvent × Envelope τ α)

/-- All envelopes put into `pending`. -/
def Journal.stashed {τ α : Type} (j : Journal τ α) : List (Envelope τ α) :=
  j.seeded.map Prod.snd ++ j.sent

structure ReplayState (τ α : Type) where
  recorded : RecordedIndex
  pending : Nat → Option (Envelope τ α)
  -- a `usize` that no run exhausts: past the recorded sends each one leaves a divergence in memory
  sendCount : ActorId → Nat
  divergences : List Divergence
  produced : Finset String
  journal : Journal τ α

variable {τ α σ : Type}

namespace ReplayState

def init (log : List CausalEvent) : ReplayState τ α where
  recorded := .build log
  pending := fun _ => none
  sendCount := fun _ => 0
  divergences := []
  produced := ∅
  journal := ⟨[], [], [], []⟩

def diverge (s : ReplayState τ α) (eventId : String) (detail : Detail) : ReplayState τ α :=
  { s with divergences := s.divergences ++ [⟨eventId, detail⟩] }

/-- What `verify` appends for a produced event. -/
def mismatch (s : ReplayState τ α) (event : CausalEvent) : List Divergence :=
  match s.recorded.byId event.id with
  | some r =>
    if r = event then []
    else [⟨event.id, .diverges r.op r.vclock event.op event.vclock⟩]
  | none => [⟨event.id, .noCounterpart⟩]

/-- `verify`: one re-produced event against the recording. -/
def verify (s : ReplayState τ α) (event : CausalEvent) : ReplayState τ α :=
  { s with
    produced := insert event.id s.produced
    divergences := s.divergences ++ s.mismatch event
    journal := { s.journal with events := s.journal.events ++ [event] } }

/-- A handler's envelope: `pending.insert(env.msg_id, env)`. -/
def deliver (s : ReplayState τ α) (env : Envelope τ α) : ReplayState τ α :=
  { s with
    pending := Function.update s.pending env.msgId (some env)
    journal := { s.journal with sent := s.journal.sent ++ [env] } }

/-- The seeded envelope of the world emit `we`: marked produced without `verify`. -/
def seed (s : ReplayState τ α) (we : CausalEvent) (env : Envelope τ α) : ReplayState τ α :=
  { s with
    produced := insert we.id s.produced
    pending := Function.update s.pending env.msgId (some env)
    journal := { s.journal with seeded := s.journal.seeded ++ [(we, env)] } }

/-- `pending.remove(&m)` for the recv `ev`, where `env` was found. -/
def consume (s : ReplayState τ α) (ev : CausalEvent) (m : Nat) (env : Envelope τ α) :
    ReplayState τ α :=
  { s with
    pending := Function.update s.pending m none
    journal := { s.journal with consumed := s.journal.consumed ++ [(ev, env)] } }

end ReplayState

/-! ## The replay backend -/

/-- The backend an actor runs under during replay. -/
structure ReplayDispatch (τ α : Type) where
  state : ReplayState τ α
  current : ActorId

namespace ReplayDispatch

/-- The recorded msg_id of the `j`-th send (1-based) by `current`; the sentinel past the end. -/
def nextMsgId (b : ReplayDispatch τ α) : Nat × ReplayDispatch τ α :=
  let j := b.state.sendCount b.current + 1
  let state := { b.state with sendCount := Function.update b.state.sendCount b.current j }
  match (state.recorded.emitsByActor b.current)[j - 1]?.bind CausalEvent.parsedMid with
  | some m => (m, ⟨state, b.current⟩)
  | none => (2 ^ 64 - 1 - j, ⟨state.diverge (b.current ++ ":send" ++ j.repr) .moreSends, b.current⟩)

instance : Dispatch (ReplayDispatch τ α) τ α where
  nextMsgId := nextMsgId
  record event b := ⟨b.state.verify event, b.current⟩
  deliver env b := ⟨b.state.deliver env, b.current⟩

end ReplayDispatch

/-! ## The replay system -/

/-- `TypedActor`: an actor with its current state. -/
structure TypedActor (τ α σ : Type) where
  actor : Actor (Addr τ) τ α σ
  state : σ

/-- `ReplaySystem`. -/
structure ReplaySystem (τ α σ : Type) where
  actors : Std.ExtTreeMap ActorId (TypedActor τ α σ)
  origins : List (ActorId × Boxed τ α)

namespace ReplaySystem

def new : ReplaySystem τ α σ := ⟨∅, []⟩

/-- `spawn`: a second actor under a name replaces the first. -/
def spawn (sys : ReplaySystem τ α σ) (name : ActorId) (actor : TypedActor τ α σ) :
    ReplaySystem τ α σ :=
  { sys with actors := sys.actors.insert name actor }

/-- `origin`: re-supply an external message. -/
def origin (sys : ReplaySystem τ α σ) (addr : Addr τ) (msg : α) : ReplaySystem τ α σ :=
  { sys with origins := sys.origins ++ [(addr.id, ⟨addr.msgType, msg⟩)] }

end ReplaySystem

/-- What the driver of a replay threads through its loops: the actors, each actor's clock, lamport
and seq (absent ones read as the zero stamps), and the shared state. -/
structure Driver (τ α σ : Type) where
  actors : Std.ExtTreeMap ActorId (TypedActor τ α σ)
  clocks : ActorId → Stamps
  state : ReplayState τ α

namespace ReplayState

/-- The origin envelope: the recorded emit's stamps, the re-supplied address and message. -/
def originEnvelope (we : CausalEvent) (m : Nat) (origin : ActorId × Boxed τ α) : Envelope τ α where
  msg := origin.2
  vclock := vclockFrom we.vclock
  lamport := ⟨we.lamport⟩
  msgId := m
  src := "world"
  dst := origin.1

/-- One turn of the seeding loop, for a world emit and the origin at its position. -/
def seedOrigin (s : ReplayState τ α) (we : CausalEvent) (origin : Option (ActorId × Boxed τ α)) :
    ReplayState τ α :=
  match we.parsedMid with
  | none => s.diverge we.id .malformedWorldEmit
  | some m =>
    match origin with
    | none => s.diverge we.id .noOrigin
    | some o => s.seed we (originEnvelope we m o)

/-- The seeding loop from the world emit number `k` on. -/
def seedOrigins (origins : List (ActorId × Boxed τ α)) :
    Nat → List CausalEvent → ReplayState τ α → ReplayState τ α
  | _, [], s => s
  | k, we :: wes, s => seedOrigins origins (k + 1) wes (s.seedOrigin we origins[k]?)

/-- The completeness pass: every recorded event must have been re-produced. -/
def complete : List CausalEvent → ReplayState τ α → ReplayState τ α
  | [], s => s
  | e :: es, s =>
    complete es (if e.id ∈ s.produced then s else s.diverge e.id .notReproduced)

end ReplayState

namespace Driver

variable [DecidableEq τ]

/-- The calls an actor makes: `started` without a message, `handle_any` with one.  `none` is the
panic on a payload of the wrong type. -/
def invoke (t : TypedActor τ α σ) : Option (Boxed τ α) → Option (σ × List (Action (Addr τ) α))
  | none => some (t.actor.started t.state)
  | some msg =>
    if msg.typeId = t.actor.msgType then some (t.actor.handle t.state msg.val) else none

/-- `drive`: run one actor under a `ReplayDispatch`. -/
def drive [Counter] (d : Driver τ α σ) (dst : ActorId) (msg : Option (Boxed τ α)) :
    Except Abort (Driver τ α σ) :=
  match d.actors[dst]? with
  | none => .error (.panicked "actor exists")
  | some t =>
    match invoke t msg with
    | none => .error (.panicked "replay topology mismatch: wrong message type for actor")
    | some (state, actions) =>
      let r := Context.performAll dst actions (d.clocks dst) (⟨d.state, dst⟩ : ReplayDispatch τ α)
      .ok {
        actors := d.actors.insert dst ⟨t.actor, state⟩
        clocks := Function.update d.clocks dst r.1
        state := r.2.state }

/-- The `started` pass over the names. -/
def startAll [Counter] : List ActorId → Driver τ α σ → Except Abort (Driver τ α σ)
  | [], d => .ok d
  | name :: names, d => do
    let d ← d.drive name none
    startAll names d

/-- Recv-stamp `env` on the receiver's clock and verify the produced recv. -/
def stampRecv [Counter] (d : Driver τ α σ) (dst : ActorId) (env : Envelope τ α) : Driver τ α σ :=
  let c := (d.clocks dst).receive dst env
  { d with
    clocks := Function.update d.clocks dst c
    state := d.state.verify (recvEvent dst c.seq c.clock c.lamport.val env) }

/-- One turn of the recv loop. -/
def recvStep [Counter] (ev : CausalEvent) (d : Driver τ α σ) : Except Abort (Driver τ α σ) :=
  if ev.op ≠ .recv then .ok d
  else
    match ev.parsedMid with
    | none => .ok { d with state := d.state.diverge ev.id .recvWithoutMsgId }
    | some m =>
      match d.state.pending m with
      | none => .ok { d with state := d.state.diverge ev.id .noMessage }
      | some env =>
        let d := { d with state := d.state.consume ev m env }.stampRecv ev.actor env
        if ev.actor ∉ d.actors then
          .ok { d with state := d.state.diverge ev.id .notRebuilt }
        else d.drive ev.actor (some env.msg)

/-- The recv loop over a timeline. -/
def recvLoop [Counter] : List CausalEvent → Driver τ α σ → Except Abort (Driver τ α σ)
  | [], d => .ok d
  | ev :: evs, d => do
    let d ← d.recvStep ev
    recvLoop evs d

end Driver

namespace ReplaySystem

variable [DecidableEq τ]

/-- The state after the seeding loop. -/
def seeded (sys : ReplaySystem τ α σ) (log : List CausalEvent) : Driver τ α σ where
  actors := sys.actors
  clocks := fun _ => .zero
  state :=
    ReplayState.seedOrigins sys.origins 0 ((RecordedIndex.build log).emitsByActor "world")
      (.init log)

/-- The driver of `replay` walking `timeline`: seeding, the `started` pass in name order, the recv
loop, the completeness pass. -/
def reexecute [Counter] (sys : ReplaySystem τ α σ) (log timeline : List CausalEvent) :
    Except Abort (Driver τ α σ) := do
  let d ← Driver.startAll sys.actors.keys (sys.seeded log)
  let d ← Driver.recvLoop timeline d
  return { d with state := d.state.complete log }

/-- `replay`, with the final state of the driver. -/
def replayRun [Counter] (sys : ReplaySystem τ α σ) (log : List CausalEvent) :
    Except Abort (Replayed × Driver τ α σ) :=
  match replayLog log with
  | .error e => .error (.error e)
  | .ok replayed => do
    let d ← sys.reexecute log replayed.timeline
    return (replayed, d)

/-- `ReplaySystem::replay`. -/
def replay [Counter] (sys : ReplaySystem τ α σ) (log : List CausalEvent) :
    Except Abort ReplayOutcome := do
  let (replayed, d) ← sys.replayRun log
  return ⟨replayed, d.state.divergences⟩

end ReplaySystem

end Lichtung
