import Lichtung.Core
import Lichtung.Lib.Transition

/-!
# The production system

Model of `crates/lichtung-prod/src/{system,dispatch,shared}.rs` as a transition system: every
spawned `actor_loop` task, every `send_external` call in progress and `run_until_quiescent` advance
one atomic step at a time, in any order.  A step of a task does at most one shared operation: it
takes a msg_id, records an event, moves the in-flight counter, touches a mailbox, or notifies.
What a task does on its own variables in between is taken together with the next shared operation.

Tasks and mailboxes are indexed by `ι`; an `Addr` is the index of the actor it was handed out for,
so the payload of a send has that actor's message type.  tokio's channels are FIFO queues and
`Notify` is one permit and one waiter.  A task whose future is dropped (it panicked, or its abort
took effect) takes its mailbox receiver with it.
-/

namespace Lichtung.Prod

/-- The actors given to `System::spawn`. -/
structure Topology (ι τ α σ : Type) where
  name : ι → ActorId
  actor : ι → Actor ι τ α σ
  init : ι → σ

/-- The `Addr` that `spawn` returned. -/
def Topology.addr {ι τ α σ : Type} (sys : Topology ι τ α σ) (i : ι) : Addr τ :=
  ⟨sys.name i, (sys.actor i).msgType⟩

/-! ## States -/

/-- Which method of its actor a task is running. -/
inductive Phase where
  | started
  | handling
  deriving DecidableEq

/-- Where a send stands once its `emit` is recorded (`ProdDispatch::deliver`). -/
inductive Stage where
  | count -- about to `inc_in_flight`
  | deliver -- about to put the envelope into the mailbox
  | undo -- the mailbox was closed: about to `dec_in_flight`
  | wake -- that reached zero: about to notify
  deriving DecidableEq

/-- Program counter of an `actor_loop`. -/
inductive Pc (ι τ α : Type) where
  /-- Not polled yet. -/
  | spawned
  /-- In user code, with the calls it still makes. -/
  | body (phase : Phase) (rest : List (Action ι α))
  /-- In `Context::send`, with a fresh msg_id. -/
  | numbered (phase : Phase) (rest : List (Action ι α)) (addr : ι) (msg : α) (msgId : Nat)
  /-- In `Context::send`, past the recording of the `emit`. -/
  | sending (phase : Phase) (rest : List (Action ι α)) (stage : Stage) (addr : ι)
      (env : Envelope τ α)
  /-- At `rx.recv().await`. -/
  | waiting
  /-- A message was dequeued. -/
  | received (env : Envelope τ α)
  /-- The last `dec_in_flight` reached zero: about to notify. -/
  | notifying

structure Task (ι τ α σ : Type) where
  pc : Pc ι τ α
  state : σ
  stamps : Stamps
  aborted : Bool
  dropped : Bool

/-- Where a `send_external` call stands. -/
inductive ExtStage where
  | record
  | count
  | deliver
  deriving DecidableEq

structure External (ι τ α : Type) where
  stage : ExtStage
  addr : ι
  env : Envelope τ α

/-- Where `run_until_quiescent` stands.  In `building` it has not been called. -/
inductive Runner where
  | building
  | polling -- about to read the counter
  | awaiting -- read a non-zero count, about to poll `notified`
  | parked
  | exited -- left the wait loop: aborting and joining the tasks
  | done
  deriving DecidableEq

structure Config (ι τ α σ : Type) where
  msgId : Nat
  inFlight : Nat
  permit : Bool
  events : List CausalEvent
  tasks : ι → Task ι τ α σ
  mailbox : ι → List (Envelope τ α)
  external : List (External ι τ α)
  runner : Runner

variable {ι τ α σ : Type} [DecidableEq ι] [DecidableEq τ]

namespace Config

/-- All tasks spawned, none polled. -/
def init (sys : Topology ι τ α σ) : Config ι τ α σ where
  msgId := 0
  inFlight := 0
  permit := false
  events := []
  tasks := fun i => ⟨.spawned, sys.init i, .zero, false, false⟩
  mailbox := fun _ => []
  external := []
  runner := .building

def setTask (s : Config ι τ α σ) (i : ι) (t : Task ι τ α σ) : Config ι τ α σ :=
  { s with tasks := Function.update s.tasks i t }

def setPc (s : Config ι τ α σ) (i : ι) (pc : Pc ι τ α) : Config ι τ α σ :=
  s.setTask i { s.tasks i with pc := pc }

def record (s : Config ι τ α σ) (e : CausalEvent) : Config ι τ α σ :=
  { s with events := s.events ++ [e] }

def incInFlight (s : Config ι τ α σ) : Config ι τ α σ := { s with inFlight := s.inFlight + 1 }

/-- `in_flight.fetch_sub(1)`, which wraps below zero. -/
def fetchSub (s : Config ι τ α σ) : Config ι τ α σ :=
  { s with inFlight := if s.inFlight = 0 then 2 ^ 64 - 1 else s.inFlight - 1 }

/-- `notify_one`: wake the waiter, or leave a permit. -/
def notifyOne (s : Config ι τ α σ) : Config ι τ α σ :=
  if s.runner = .parked then { s with runner := .polling } else { s with permit := true }

def push (s : Config ι τ α σ) (i : ι) (env : Envelope τ α) : Config ι τ α σ :=
  { s with mailbox := Function.update s.mailbox i (s.mailbox i ++ [env]) }

/-- The future of task `i` is dropped, and the mailbox receiver with it. -/
def drop (s : Config ι τ α σ) (i : ι) : Config ι τ α σ :=
  { s.setTask i { s.tasks i with dropped := true } with
    mailbox := Function.update s.mailbox i [] }

section Notify

variable (s : Config ι τ α σ) (i : ι) (pc : Pc ι τ α)

omit [DecidableEq ι] [DecidableEq τ] in
@[simp] theorem notifyOne_tasks : s.notifyOne.tasks = s.tasks := by
  unfold notifyOne; split <;> rfl

omit [DecidableEq ι] [DecidableEq τ] in
@[simp] theorem notifyOne_mailbox : s.notifyOne.mailbox = s.mailbox := by
  unfold notifyOne; split <;> rfl

omit [DecidableEq ι] [DecidableEq τ] in
@[simp] theorem notifyOne_external : s.notifyOne.external = s.external := by
  unfold notifyOne; split <;> rfl

omit [DecidableEq ι] [DecidableEq τ] in
@[simp] theorem notifyOne_events : s.notifyOne.events = s.events := by
  unfold notifyOne; split <;> rfl

omit [DecidableEq ι] [DecidableEq τ] in
@[simp] theorem notifyOne_msgId : s.notifyOne.msgId = s.msgId := by
  unfold notifyOne; split <;> rfl

omit [DecidableEq ι] [DecidableEq τ] in
@[simp] theorem notifyOne_inFlight : s.notifyOne.inFlight = s.inFlight := by
  unfold notifyOne; split <;> rfl

omit [DecidableEq τ] in
theorem notifyOne_setPc_tasks :
    (s.notifyOne.setPc i pc).tasks = Function.update s.tasks i { s.tasks i with pc := pc } := by
  simp [setPc, setTask]

end Notify

end Config

/-! ## Steps -/

/-- What happens next: a task's next operation, a panic in its user code, an abort request by the
runner or its taking effect, a call of `send_external` or the next operation of the `k`-th one in
progress, the runner's next operation. -/
inductive Label (ι α : Type) where
  | task (i : ι)
  | panic (i : ι)
  | abort (i : ι)
  | cancel (i : ι)
  | sendExternal (addr : ι) (msg : α)
  | external (k : Nat)
  | runner

variable (sys : Topology ι τ α σ)

/-- The envelope of `send_external`. -/
def worldEnvelope (m : Nat) (addr : ι) (msg : α) : Envelope τ α where
  msg := ⟨(sys.actor addr).msgType, msg⟩
  vclock := VectorClock.new.increment "world"
  lamport := ⟨1⟩
  msgId := m
  src := "world"
  dst := sys.name addr

/-- What a received envelope makes the actor do: a payload of the wrong type is accounted for and
skipped. -/
def handleAny (i : ι) (state : σ) (env : Envelope τ α) : σ × List (Action ι α) :=
  if env.msg.typeId = (sys.actor i).msgType then (sys.actor i).handle state env.msg.val
  else (state, [])

/-- One operation of `actor_loop`. -/
def stepTask (s : Config ι τ α σ) (i : ι) : Option (Config ι τ α σ) :=
  let t := s.tasks i
  if t.dropped then none
  else match t.pc with
    | .spawned =>
      if t.aborted then none
      else
        let (state, calls) := (sys.actor i).started t.state
        some (s.setTask i { t with pc := .body .started calls, state := state })
    | .body phase (.compute :: rest) =>
      let c := t.stamps.bump (sys.name i)
      some ((s.record (computeEvent (sys.name i) c.seq c.clock c.lamport.val)).setTask i
        { t with pc := .body phase rest, stamps := c })
    | .body phase (.send addr msg :: rest) =>
      some ({ s with msgId := s.msgId + 1 }.setPc i
        (.numbered phase rest addr msg (s.msgId + 1)))
    | .body .started [] => some (s.setPc i .waiting)
    | .body .handling [] =>
      some (s.fetchSub.setPc i (if s.inFlight = 1 then .notifying else .waiting))
    | .numbered phase rest addr msg m =>
      let c := t.stamps.bump (sys.name i)
      let env := c.envelope (sys.name i) m (sys.addr addr) msg
      some ((s.record (emitEvent (sys.name i) c.seq env)).setTask i
        { t with pc := .sending phase rest .count addr env, stamps := c })
    | .sending phase rest .count addr env =>
      some (s.incInFlight.setPc i (.sending phase rest .deliver addr env))
    | .sending phase rest .deliver addr env =>
      if (s.tasks addr).dropped then some (s.setPc i (.sending phase rest .undo addr env))
      else some ((s.push addr env).setPc i (.body phase rest))
    | .sending phase rest .undo addr env =>
      some (s.fetchSub.setPc i
        (if s.inFlight = 1 then .sending phase rest .wake addr env else .body phase rest))
    | .sending phase rest .wake _ _ => some (s.notifyOne.setPc i (.body phase rest))
    | .waiting =>
      match s.mailbox i with
      | [] => none
      | env :: queue =>
        some ({ s with mailbox := Function.update s.mailbox i queue }.setPc i (.received env))
    | .received env =>
      let c := t.stamps.receive (sys.name i) env
      let (state, calls) := handleAny sys i t.state env
      some ((s.record (recvEvent (sys.name i) c.seq c.clock c.lamport.val env)).setTask i
        { t with pc := .body .handling calls, state := state, stamps := c })
    | .notifying => some (s.notifyOne.setPc i .waiting)

/-- A panic in `started` or `handle`: the task ends. -/
def stepPanic (s : Config ι τ α σ) (i : ι) : Option (Config ι τ α σ) :=
  if (s.tasks i).dropped then none
  else match (s.tasks i).pc with
    | .body _ _ => some (s.drop i)
    | _ => none

/-- `h.abort()`. -/
def stepAbort (s : Config ι τ α σ) (i : ι) : Option (Config ι τ α σ) :=
  if s.runner = .exited then some (s.setTask i { s.tasks i with aborted := true }) else none

/-- An abort takes effect at an `.await`, or before the first poll. -/
def stepCancel (s : Config ι τ α σ) (i : ι) : Option (Config ι τ α σ) :=
  if (s.tasks i).aborted ∧ ¬ (s.tasks i).dropped then
    match (s.tasks i).pc with
    | .spawned | .waiting => some (s.drop i)
    | _ => none
  else none

/-- A call of `send_external`, up to its msg_id.  `run_until_quiescent` takes the system by value:
every `send_external` starts and ends before it is called. -/
def stepSendExternal (s : Config ι τ α σ) (addr : ι) (msg : α) : Option (Config ι τ α σ) :=
  if s.runner = .building then
    some { s with
      msgId := s.msgId + 1
      external := s.external ++ [⟨.record, addr, worldEnvelope sys (s.msgId + 1) addr msg⟩] }
  else none

/-- The next operation of the `k`-th `send_external` in progress.  The result of its delivery is
ignored. -/
def stepExternal (s : Config ι τ α σ) (k : Nat) : Option (Config ι τ α σ) :=
  match s.external[k]? with
  | none => none
  | some x =>
    match x.stage with
    | .record =>
      some { s.record (emitEvent "world" 1 x.env) with
        external := s.external.set k { x with stage := .count } }
    | .count =>
      some { s.incInFlight with external := s.external.set k { x with stage := .deliver } }
    | .deliver =>
      let s' := if (s.tasks x.addr).dropped then s else s.push x.addr x.env
      some { s' with external := s.external.eraseIdx k }

variable [Fintype ι]

/-- The next operation of `run_until_quiescent`. -/
def stepRunner (s : Config ι τ α σ) : Option (Config ι τ α σ) :=
  match s.runner with
  | .building => if s.external.isEmpty then some { s with runner := .polling } else none
  | .polling => some { s with runner := if s.inFlight = 0 then .exited else .awaiting }
  | .awaiting =>
    if s.permit then some { s with permit := false, runner := .polling }
    else some { s with runner := .parked }
  | .parked => none
  | .exited => if ∀ i, (s.tasks i).dropped then some { s with runner := .done } else none
  | .done => none

/-- One step of the system. -/
def step (s : Config ι τ α σ) : Label ι α → Option (Config ι τ α σ)
  | .task i => stepTask sys s i
  | .panic i => stepPanic s i
  | .abort i => stepAbort s i
  | .cancel i => stepCancel s i
  | .sendExternal addr msg => stepSendExternal sys s addr msg
  | .external k => stepExternal s k
  | .runner => stepRunner s

/-- A run of the system from its start. -/
def Run (ls : List (Label ι α)) (s : Config ι τ α σ) : Prop :=
  Transition.Run (step sys) (.init sys) ls s

/-! ## The steps, one by one -/

/-- Everything `step` can do. -/
inductive Step (s : Config ι τ α σ) : Label ι α → Config ι τ α σ → Prop where
  | start {i : ι} (hd : (s.tasks i).dropped = false) (hpc : (s.tasks i).pc = .spawned)
      (ha : (s.tasks i).aborted = false) :
      Step s (.task i) (s.setTask i { s.tasks i with
        pc := .body .started ((sys.actor i).started (s.tasks i).state).2
        state := ((sys.actor i).started (s.tasks i).state).1 })
  | compute {i : ι} {phase : Phase} {rest : List (Action ι α)}
      (hd : (s.tasks i).dropped = false) (hpc : (s.tasks i).pc = .body phase (.compute :: rest)) :
      Step s (.task i) ((s.record (computeEvent (sys.name i)
          ((s.tasks i).stamps.bump (sys.name i)).seq ((s.tasks i).stamps.bump (sys.name i)).clock
          ((s.tasks i).stamps.bump (sys.name i)).lamport.val)).setTask i
        { s.tasks i with
          pc := .body phase rest
          stamps := (s.tasks i).stamps.bump (sys.name i) })
  | number {i : ι} {phase : Phase} {rest : List (Action ι α)} {addr : ι} {msg : α}
      (hd : (s.tasks i).dropped = false)
      (hpc : (s.tasks i).pc = .body phase (.send addr msg :: rest)) :
      Step s (.task i) ({ s with msgId := s.msgId + 1 }.setPc i
        (.numbered phase rest addr msg (s.msgId + 1)))
  | startedDone {i : ι} (hd : (s.tasks i).dropped = false)
      (hpc : (s.tasks i).pc = .body .started []) : Step s (.task i) (s.setPc i .waiting)
  | handled {i : ι} (hd : (s.tasks i).dropped = false)
      (hpc : (s.tasks i).pc = .body .handling []) :
      Step s (.task i) (s.fetchSub.setPc i (if s.inFlight = 1 then .notifying else .waiting))
  | emit {i : ι} {phase : Phase} {rest : List (Action ι α)} {addr : ι} {msg : α} {m : Nat}
      (hd : (s.tasks i).dropped = false)
      (hpc : (s.tasks i).pc = .numbered phase rest addr msg m) :
      Step s (.task i) ((s.record (emitEvent (sys.name i)
          ((s.tasks i).stamps.bump (sys.name i)).seq
          (((s.tasks i).stamps.bump (sys.name i)).envelope (sys.name i) m (sys.addr addr)
            msg))).setTask i
        { s.tasks i with
          pc := .sending phase rest .count addr
            (((s.tasks i).stamps.bump (sys.name i)).envelope (sys.name i) m (sys.addr addr) msg)
          stamps := (s.tasks i).stamps.bump (sys.name i) })
  | count {i : ι} {phase : Phase} {rest : List (Action ι α)} {addr : ι} {env : Envelope τ α}
      (hd : (s.tasks i).dropped = false)
      (hpc : (s.tasks i).pc = .sending phase rest .count addr env) :
      Step s (.task i) (s.incInFlight.setPc i (.sending phase rest .deliver addr env))
  | deliver {i : ι} {phase : Phase} {rest : List (Action ι α)} {addr : ι} {env : Envelope τ α}
      (hd : (s.tasks i).dropped = false)
      (hpc : (s.tasks i).pc = .sending phase rest .deliver addr env)
      (hlive : (s.tasks addr).dropped = false) :
      Step s (.task i) ((s.push addr env).setPc i (.body phase rest))
  | bounce {i : ι} {phase : Phase} {rest : List (Action ι α)} {addr : ι} {env : Envelope τ α}
      (hd : (s.tasks i).dropped = false)
      (hpc : (s.tasks i).pc = .sending phase rest .deliver addr env)
      (hgone : (s.tasks addr).dropped = true) :
      Step s (.task i) (s.setPc i (.sending phase rest .undo addr env))
  | undo {i : ι} {phase : Phase} {rest : List (Action ι α)} {addr : ι} {env : Envelope τ α}
      (hd : (s.tasks i).dropped = false)
      (hpc : (s.tasks i).pc = .sending phase rest .undo addr env) :
      Step s (.task i) (s.fetchSub.setPc i
        (if s.inFlight = 1 then .sending phase rest .wake addr env else .body phase rest))
  | wake {i : ι} {phase : Phase} {rest : List (Action ι α)} {addr : ι} {env : Envelope τ α}
      (hd : (s.tasks i).dropped = false)
      (hpc : (s.tasks i).pc = .sending phase rest .wake addr env) :
      Step s (.task i) (s.notifyOne.setPc i (.body phase rest))
  | dequeue {i : ι} {env : Envelope τ α} {queue : List (Envelope τ α)}
      (hd : (s.tasks i).dropped = false) (hpc : (s.tasks i).pc = .waiting)
      (hq : s.mailbox i = env :: queue) :
      Step s (.task i)
        ({ s with mailbox := Function.update s.mailbox i queue }.setPc i (.received env))
  | receive {i : ι} {env : Envelope τ α} (hd : (s.tasks i).dropped = false)
      (hpc : (s.tasks i).pc = .received env) :
      Step s (.task i) ((s.record (recvEvent (sys.name i)
          ((s.tasks i).stamps.receive (sys.name i) env).seq
          ((s.tasks i).stamps.receive (sys.name i) env).clock
          ((s.tasks i).stamps.receive (sys.name i) env).lamport.val env)).setTask i
        { s.tasks i with
          pc := .body .handling (handleAny sys i (s.tasks i).state env).2
          state := (handleAny sys i (s.tasks i).state env).1
          stamps := (s.tasks i).stamps.receive (sys.name i) env })
  | notify {i : ι} (hd : (s.tasks i).dropped = false) (hpc : (s.tasks i).pc = .notifying) :
      Step s (.task i) (s.notifyOne.setPc i .waiting)
  | panic {i : ι} {phase : Phase} {rest : List (Action ι α)} (hd : (s.tasks i).dropped = false)
      (hpc : (s.tasks i).pc = .body phase rest) : Step s (.panic i) (s.drop i)
  | abort {i : ι} (hr : s.runner = .exited) :
      Step s (.abort i) (s.setTask i { s.tasks i with aborted := true })
  | cancel {i : ι} (ha : (s.tasks i).aborted = true) (hd : (s.tasks i).dropped = false)
      (hpc : (s.tasks i).pc = .spawned ∨ (s.tasks i).pc = .waiting) :
      Step s (.cancel i) (s.drop i)
  | sendExternal {addr : ι} {msg : α} (hr : s.runner = .building) :
      Step s (.sendExternal addr msg) { s with
        msgId := s.msgId + 1
        external := s.external ++ [⟨.record, addr, worldEnvelope sys (s.msgId + 1) addr msg⟩] }
  | extRecord {k : Nat} {x : External ι τ α} (hk : s.external[k]? = some x)
      (hx : x.stage = .record) :
      Step s (.external k) { s.record (emitEvent "world" 1 x.env) with
        external := s.external.set k { x with stage := .count } }
  | extCount {k : Nat} {x : External ι τ α} (hk : s.external[k]? = some x)
      (hx : x.stage = .count) :
      Step s (.external k)
        { s.incInFlight with external := s.external.set k { x with stage := .deliver } }
  | extDeliver {k : Nat} {x : External ι τ α} (hk : s.external[k]? = some x)
      (hx : x.stage = .deliver) (hlive : (s.tasks x.addr).dropped = false) :
      Step s (.external k) { s.push x.addr x.env with external := s.external.eraseIdx k }
  | extLost {k : Nat} {x : External ι τ α} (hk : s.external[k]? = some x)
      (hx : x.stage = .deliver) (hgone : (s.tasks x.addr).dropped = true) :
      Step s (.external k) { s with external := s.external.eraseIdx k }
  | call (hr : s.runner = .building) (hx : s.external = []) :
      Step s .runner { s with runner := .polling }
  | exit (hr : s.runner = .polling) (h0 : s.inFlight = 0) :
      Step s .runner { s with runner := .exited }
  | again (hr : s.runner = .polling) (h0 : s.inFlight ≠ 0) :
      Step s .runner { s with runner := .awaiting }
  | permit (hr : s.runner = .awaiting) (hp : s.permit = true) :
      Step s .runner { s with permit := false, runner := .polling }
  | park (hr : s.runner = .awaiting) (hp : s.permit = false) :
      Step s .runner { s with runner := .parked }
  | join (hr : s.runner = .exited) (hall : ∀ i, (s.tasks i).dropped = true) :
      Step s .runner { s with runner := .done }

theorem step_cases {s s' : Config ι τ α σ} {l : Label ι α} (h : step sys s l = some s') :
    Step sys s l s' := by
  cases l with
  | task i =>
    simp only [step, stepTask] at h
    split at h
    · cases h
    · rename_i hd
      have hd : (s.tasks i).dropped = false := by simpa using hd
      split at h
      · rename_i hpc
        split at h
        · cases h
        · rename_i ha
          cases h
          exact .start hd hpc (by simpa using ha)
      · rename_i hpc; cases h; exact .compute hd hpc
      · rename_i hpc; cases h; exact .number hd hpc
      · rename_i hpc; cases h; exact .startedDone hd hpc
      · rename_i hpc; cases h; exact .handled hd hpc
      · rename_i hpc; cases h; exact .emit hd hpc
      · rename_i hpc; cases h; exact .count hd hpc
      · rename_i hpc
        split at h
        · rename_i hgone; cases h; exact .bounce hd hpc hgone
        · rename_i hlive; cases h; exact .deliver hd hpc (by simpa using hlive)
      · rename_i hpc; cases h; exact .undo hd hpc
      · rename_i hpc; cases h; exact .wake hd hpc
      · rename_i hpc
        split at h
        · cases h
        · rename_i hq; cases h; exact .dequeue hd hpc hq
      · rename_i hpc; cases h; exact .receive hd hpc
      · rename_i hpc; cases h; exact .notify hd hpc
  | panic i =>
    simp only [step, stepPanic] at h
    split at h
    · cases h
    · rename_i hd
      split at h
      · rename_i hpc; cases h; exact .panic (by simpa using hd) hpc
      · cases h
  | abort i =>
    simp only [step, stepAbort] at h
    split at h
    · rename_i hr; cases h; exact .abort hr
    · cases h
  | cancel i =>
    simp only [step, stepCancel] at h
    split at h
    · rename_i ha
      split at h
      · rename_i hpc; cases h; exact .cancel ha.1 (by simpa using ha.2) (.inl hpc)
      · rename_i hpc; cases h; exact .cancel ha.1 (by simpa using ha.2) (.inr hpc)
      · cases h
    · cases h
  | sendExternal addr msg =>
    simp only [step, stepSendExternal] at h
    split at h
    · rename_i hr; cases h; exact .sendExternal hr
    · cases h
  | external k =>
    simp only [step, stepExternal] at h
    split at h
    · cases h
    · rename_i x hk
      split at h
      · rename_i hx; cases h; exact .extRecord hk hx
      · rename_i hx; cases h; exact .extCount hk hx
      · rename_i hx
        by_cases hgone : (s.tasks x.addr).dropped = true
        · rw [if_pos hgone] at h; cases h; exact .extLost hk hx hgone
        · rw [if_neg hgone] at h; cases h; exact .extDeliver hk hx (by simpa using hgone)
  | runner =>
    simp only [step, stepRunner] at h
    split at h
    · rename_i hr
      split at h
      · rename_i hx; cases h; exact .call hr (by simpa using hx)
      · cases h
    · rename_i hr
      cases h
      by_cases h0 : s.inFlight = 0
      · rw [if_pos h0]; exact .exit hr h0
      · rw [if_neg h0]; exact .again hr h0
    · rename_i hr
      split at h
      · rename_i hp; cases h; exact .permit hr hp
      · rename_i hp; cases h; exact .park hr (by simpa using hp)
    · cases h
    · rename_i hr
      split at h
      · rename_i hall; cases h; exact .join hr hall
      · cases h
    · cases h

end Lichtung.Prod
