import Lichtung.Clock
import Lichtung.Lib.Decimal

/-!
# Events, envelopes, actors and the context

Model of `CausalEvent` (`crates/lichtung-log`) and of the actor boundary `crates/lichtung-core`:
the three event constructors of `event.rs`, `Envelope`, `Actor`, the backend trait `Dispatch` and
the stamping rules of `Context::send` / `Context::compute`.

`τ` is the set of message types (`std::any::TypeId`), `α` the values a message box can hold and
`σ` the actor states.  A handler that reads a clock or a random source is a function whose state
carries that run's readings, so the deterministic `Actor` below loses no run.

Principal results: `idOf_inj`, `mid_inj` (ids and msg_ids determine the coordinate and the number
they were made from).
-/

namespace Lichtung

/-! ## The causal log -/

inductive Op where
  | emit
  | recv
  | compute
  | report
  | drop
  deriving DecidableEq, Repr

/-- The bit pattern of an `f64`.  The recorder writes no `value`, so a replay only ever compares
it with an absent one. -/
structure F64 where
  bits : UInt64
  deriving DecidableEq

structure CausalEvent where
  id : String
  actor : String
  seq : Nat
  op : Op
  vclock : StringMap
  lamport : Nat
  msgId : Option String
  src : Option String
  dst : Option String
  value : Option F64
  payloadHash : Option String
  deriving DecidableEq

/-! ## Messages -/

/-- `Box<dyn Any + Send>`: a value with the type it was boxed at. -/
structure Boxed (τ α : Type) where
  typeId : τ
  val : α
  deriving DecidableEq

/-- A message in transit, carrying its causal stamps. -/
structure Envelope (τ α : Type) where
  msg : Boxed τ α
  vclock : VectorClock
  lamport : Lamport
  msgId : Nat
  src : ActorId
  dst : ActorId
  deriving DecidableEq

/-- `Addr<M>` without its sink: an id and the message type `send` accepts. -/
structure Addr (τ : Type) where
  id : ActorId
  msgType : τ
  deriving DecidableEq

/-! ## Event constructors (`event.rs`) -/

variable {τ α σ : Type}

def idOf (actor : ActorId) (seq : Nat) : String := actor ++ ":" ++ seq.repr

def mid (msgId : Nat) : Option String := some ("m" ++ msgId.repr)

/-- `emit`: the sender's post-increment clock is already in `env.vclock`. -/
def emitEvent (actor : ActorId) (seq : Nat) (env : Envelope τ α) : CausalEvent where
  id := idOf actor seq
  actor := actor
  seq := seq
  op := .emit
  vclock := env.vclock.toStringMap
  lamport := env.lamport.val
  msgId := mid env.msgId
  src := some env.src
  dst := some env.dst
  value := none
  payloadHash := none

/-- `recv`: `clock` is the receiver's clock after merge and increment. -/
def recvEvent (actor : ActorId) (seq : Nat) (clock : VectorClock) (lamport : Nat)
    (env : Envelope τ α) : CausalEvent where
  id := idOf actor seq
  actor := actor
  seq := seq
  op := .recv
  vclock := clock.toStringMap
  lamport := lamport
  msgId := mid env.msgId
  src := some env.src
  dst := some actor
  value := none
  payloadHash := none

/-- `compute`: a local event on the actor's world-line, no message. -/
def computeEvent (actor : ActorId) (seq : Nat) (clock : VectorClock) (lamport : Nat) :
    CausalEvent where
  id := idOf actor seq
  actor := actor
  seq := seq
  op := .compute
  vclock := clock.toStringMap
  lamport := lamport
  msgId := none
  src := none
  dst := none
  value := none
  payloadHash := none

@[simp] theorem emitEvent_op (a : ActorId) (seq : Nat) (env : Envelope τ α) :
    (emitEvent a seq env).op = .emit := rfl

@[simp] theorem recvEvent_op (a : ActorId) (seq : Nat) (clock : VectorClock) (lamport : Nat)
    (env : Envelope τ α) : (recvEvent a seq clock lamport env).op = .recv := rfl

@[simp] theorem computeEvent_op (a : ActorId) (seq : Nat) (clock : VectorClock) (lamport : Nat) :
    (computeEvent a seq clock lamport).op = .compute := rfl

theorem mid_inj {m n : Nat} : mid m = mid n ↔ m = n := by
  unfold mid
  constructor
  · intro h
    have hl := congrArg String.toList (Option.some.inj h)
    simp only [String.toList_append, List.append_cancel_left_eq] at hl
    exact Nat.repr_inj.mp (String.toList_inj.mp hl)
  · rintro rfl; rfl

/-- A decimal numeral holds no colon. -/
theorem colon_not_mem_repr (n : Nat) : ':' ∉ n.repr.toList := fun h =>
  absurd (Decimal.isDigit_of_mem_repr h) (by decide)

/-- A list is cut at its last separator in one way only. -/
theorem cut_at_last {β : Type} {c : β} {u v x y : List β} (hx : c ∉ x) (hy : c ∉ y)
    (h : u ++ c :: x = v ++ c :: y) : u = v ∧ x = y := by
  rcases List.append_eq_append_iff.mp h with ⟨w, rfl, hw⟩ | ⟨w, rfl, hw⟩
  · cases w with
    | nil => simpa using hw
    | cons d w =>
      obtain ⟨-, rfl⟩ := List.cons.inj hw
      exact absurd (by simp) hx
  · cases w with
    | nil => simpa using hw.symm
    | cons d w =>
      obtain ⟨-, rfl⟩ := List.cons.inj hw
      exact absurd (by simp) hy

/-- The digits after the last colon are the sequence number. -/
theorem idOf_inj {a b : ActorId} {m n : Nat} : idOf a m = idOf b n ↔ a = b ∧ m = n := by
  constructor
  · intro h
    have hl := congrArg String.toList h
    simp only [idOf, String.toList_append, List.append_assoc] at hl
    obtain ⟨ha, hn⟩ := cut_at_last (c := ':') (colon_not_mem_repr m) (colon_not_mem_repr n) hl
    exact ⟨String.toList_inj.mp ha, Nat.repr_inj.mp (String.toList_inj.mp hn)⟩
  · rintro ⟨rfl, rfl⟩; rfl

/-! ## Actors -/

/-- What a handler does through its context: `ctx.send(to, msg)` or `ctx.compute()`.  `A` is the
type of addresses. -/
inductive Action (A α : Type) where
  | send (addr : A) (msg : α)
  | compute
  deriving DecidableEq

/-- `trait Actor`.  Both methods are functions of the state and the message: they return the new
state and the calls they make on the context, in order. -/
structure Actor (A τ α σ : Type) where
  msgType : τ
  started : σ → σ × List (Action A α)
  handle : σ → α → σ × List (Action A α)

/-! ## The context (`context.rs`) -/

/-- The causal locals of one actor: `clock`, `lamport`, `seq`. -/
structure Stamps where
  clock : VectorClock
  lamport : Lamport
  seq : Nat
  deriving DecidableEq

namespace Stamps

def zero : Stamps := ⟨.new, .zero, 0⟩

/-- A local event: own clock, lamport and seq all advance. -/
def bump [Counter] (c : Stamps) (id : ActorId) : Stamps :=
  ⟨c.clock.increment id, c.lamport.tick, Counter.succ c.seq⟩

/-- The recv-stamp: merge, increment own, update lamport, advance seq. -/
def receive [Counter] (c : Stamps) (id : ActorId) (env : Envelope τ α) : Stamps :=
  ⟨(c.clock.merge env.vclock).increment id, c.lamport.update env.lamport, Counter.succ c.seq⟩

@[simp] theorem bump_seq (c : Stamps) (id : ActorId) : (c.bump id).seq = c.seq + 1 := rfl

@[simp] theorem bump_lamport (c : Stamps) (id : ActorId) :
    (c.bump id).lamport = c.lamport.tick := rfl

@[simp] theorem receive_seq (c : Stamps) (id : ActorId) (env : Envelope τ α) :
    (c.receive id env).seq = c.seq + 1 := rfl

@[simp] theorem receive_lamport (c : Stamps) (id : ActorId) (env : Envelope τ α) :
    (c.receive id env).lamport = c.lamport.update env.lamport := rfl

theorem bump_get_succ [Counter] (c : Stamps) (id k : ActorId) :
    (c.bump id).clock.get k = if k = id then Counter.succ (c.clock.get id) else c.clock.get k :=
  c.clock.get_increment_succ id k

theorem bump_get (c : Stamps) (id k : ActorId) :
    (c.bump id).clock.get k = if k = id then c.clock.get id + 1 else c.clock.get k :=
  c.bump_get_succ id k

theorem receive_get_succ [Counter] (c : Stamps) (id k : ActorId) (env : Envelope τ α) :
    (c.receive id env).clock.get k =
      if k = id then Counter.succ (max (c.clock.get id) (env.vclock.get id))
      else max (c.clock.get k) (env.vclock.get k) := by
  simp only [receive, VectorClock.get_increment_succ, VectorClock.get_merge]

theorem receive_get (c : Stamps) (id k : ActorId) (env : Envelope τ α) :
    (c.receive id env).clock.get k =
      if k = id then max (c.clock.get id) (env.vclock.get id) + 1
      else max (c.clock.get k) (env.vclock.get k) :=
  c.receive_get_succ id k env

end Stamps

/-- The envelope `send` builds from the stamps it has just advanced. -/
def Stamps.envelope (c : Stamps) (id : ActorId) (msgId : Nat) (addr : Addr τ) (msg : α) :
    Envelope τ α where
  msg := ⟨addr.msgType, msg⟩
  vclock := c.clock
  lamport := c.lamport
  msgId := msgId
  src := id
  dst := addr.id

/-- `trait Dispatch`: the runtime backend a context delegates to.  `β` is the backend's state. -/
class Dispatch (β : Type) (τ α : outParam Type) where
  nextMsgId : β → Nat × β
  record : CausalEvent → β → β
  deliver : Envelope τ α → β → β

namespace Context

variable {β : Type} [Dispatch β τ α]

/-- `Context::send`: advance the stamps, take a msg_id, record the `emit`, hand over. -/
def send [Counter] (id : ActorId) (addr : Addr τ) (msg : α) (c : Stamps) (backend : β) :
    Stamps × β :=
  let c := c.bump id
  let (msgId, backend) := Dispatch.nextMsgId backend
  let env := c.envelope id msgId addr msg
  let backend := Dispatch.record (emitEvent id c.seq env) backend
  (c, Dispatch.deliver env backend)

/-- `Context::compute`. -/
def compute [Counter] (id : ActorId) (c : Stamps) (backend : β) : Stamps × β :=
  let c := c.bump id
  (c, Dispatch.record (computeEvent id c.seq c.clock c.lamport.val) backend)

/-- One call of a handler on its context. -/
def perform [Counter] (id : ActorId) : Action (Addr τ) α → Stamps → β → Stamps × β
  | .send addr msg, c, backend => send id addr msg c backend
  | .compute, c, backend => compute id c backend

/-- A handler's calls, in order. -/
def performAll [Counter] (id : ActorId) : List (Action (Addr τ) α) → Stamps → β → Stamps × β
  | [], c, backend => (c, backend)
  | a :: as, c, backend =>
    let r := perform id a c backend
    performAll id as r.1 r.2

end Context

end Lichtung
