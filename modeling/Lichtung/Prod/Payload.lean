import Lichtung.Prod.Reproduction
import Lichtung.Replay.Payload

/-!
# What the log does not say

Two production systems built alike, their actors answering payloads that stand for one another with
the same calls but for such payloads, go through the same steps and record the same log.

Principal results: `Config.Like.step` (one step) and `log_blind`.
-/

namespace Lichtung.Prod

open Transition

variable {ι τ α α' σ σ' : Type}

/-! ## Systems and states alike -/

section Like

variable (M : τ → α → α' → Prop)

/-- The payload of a call fits the actor it goes to. -/
abbrev Topology.Fits (sys : Topology ι τ α σ) (i : ι) : α → α' → Prop := M (sys.actor i).msgType

structure Topology.Like (S : ι → σ → σ' → Prop) (sys : Topology ι τ α σ)
    (sys' : Topology ι τ α' σ') : Prop where
  name : sys.name = sys'.name
  actor : ∀ i, (sys.actor i).Like M (sys.Fits M) (S i) (sys'.actor i)
  init : ∀ i, S i (sys.init i) (sys'.init i)

variable (R : ι → α → α' → Prop)

inductive Pc.Like : Pc ι τ α → Pc ι τ α' → Prop where
  | spawned : Like .spawned .spawned
  | body (phase : Phase) {rest : List (Action ι α)} {rest' : List (Action ι α')}
      (hrest : List.Forall₂ (Action.Like R) rest rest') :
      Like (.body phase rest) (.body phase rest')
  | numbered (phase : Phase) (addr : ι) (msgId : Nat) {rest : List (Action ι α)}
      {rest' : List (Action ι α')} {msg : α} {msg' : α'}
      (hrest : List.Forall₂ (Action.Like R) rest rest') (hmsg : R addr msg msg') :
      Like (.numbered phase rest addr msg msgId) (.numbered phase rest' addr msg' msgId)
  | sending (phase : Phase) (stage : Stage) (addr : ι) {rest : List (Action ι α)}
      {rest' : List (Action ι α')} {env : Envelope τ α} {env' : Envelope τ α'}
      (hrest : List.Forall₂ (Action.Like R) rest rest') (henv : env.Like M env') :
      Like (.sending phase rest stage addr env) (.sending phase rest' stage addr env')
  | waiting : Like .waiting .waiting
  | received {env : Envelope τ α} {env' : Envelope τ α'} (henv : env.Like M env') :
      Like (.received env) (.received env')
  | notifying : Like .notifying .notifying

structure Task.Like (S : σ → σ' → Prop) (t : Task ι τ α σ) (t' : Task ι τ α' σ') : Prop where
  pc : t.pc.Like M R t'.pc
  state : S t.state t'.state
  stamps : t.stamps = t'.stamps
  aborted : t.aborted = t'.aborted
  dropped : t.dropped = t'.dropped

structure External.Like (x : External ι τ α) (x' : External ι τ α') : Prop where
  stage : x.stage = x'.stage
  addr : x.addr = x'.addr
  env : x.env.Like M x'.env

/-- The same state but for payloads and what actors make of them. -/
structure Config.Like (S : ι → σ → σ' → Prop) (s : Config ι τ α σ) (s' : Config ι τ α' σ') :
    Prop where
  msgId : s.msgId = s'.msgId
  inFlight : s.inFlight = s'.inFlight
  permit : s.permit = s'.permit
  events : s.events = s'.events
  tasks : ∀ i, (s.tasks i).Like M R (S i) (s'.tasks i)
  mailbox : ∀ i, List.Forall₂ (Envelope.Like M) (s.mailbox i) (s'.mailbox i)
  external : List.Forall₂ (External.Like M) s.external s'.external
  runner : s.runner = s'.runner

/-- The same step, an origin having a payload that stands for the other's. -/
inductive Label.Like : Label ι α → Label ι α' → Prop where
  | task (i : ι) : Like (.task i) (.task i)
  | panic (i : ι) : Like (.panic i) (.panic i)
  | abort (i : ι) : Like (.abort i) (.abort i)
  | cancel (i : ι) : Like (.cancel i) (.cancel i)
  | sendExternal (addr : ι) {msg : α} {msg' : α'} (h : R addr msg msg') :
      Like (.sendExternal addr msg) (.sendExternal addr msg')
  | external (k : Nat) : Like (.external k) (.external k)
  | runner : Like .runner .runner

end Like

/-! ## What the operations keep -/

variable {M : τ → α → α' → Prop} {R : ι → α → α' → Prop} {S : ι → σ → σ' → Prop}

namespace Config.Like

variable {s : Config ι τ α σ} {s' : Config ι τ α' σ'} (h : s.Like M R S s')
include h

theorem setTask [DecidableEq ι] (i : ι) {t : Task ι τ α σ} {t' : Task ι τ α' σ'}
    (ht : t.Like M R (S i) t') : (s.setTask i t).Like M R S (s'.setTask i t') :=
  { h with tasks := Pointwise.update h.tasks i ht }

theorem setPc [DecidableEq ι] (i : ι) {pc : Pc ι τ α} {pc' : Pc ι τ α'} (hpc : pc.Like M R pc') :
    (s.setPc i pc).Like M R S (s'.setPc i pc') :=
  h.setTask i { h.tasks i with pc := hpc }

theorem record {e e' : CausalEvent} (he : e = e') : (s.record e).Like M R S (s'.record e') :=
  { h with events := by rw [Config.record, Config.record, h.events, he] }

theorem number : Config.Like M R S { s with msgId := s.msgId + 1 }
    { s' with msgId := s'.msgId + 1 } :=
  { h with msgId := congrArg (· + 1) h.msgId }

theorem incInFlight : s.incInFlight.Like M R S s'.incInFlight :=
  { h with inFlight := congrArg (· + 1) h.inFlight }

theorem fetchSub : s.fetchSub.Like M R S s'.fetchSub :=
  { h with inFlight := by simp only [Config.fetchSub, h.inFlight] }

theorem notifyOne : s.notifyOne.Like M R S s'.notifyOne := by
  unfold Config.notifyOne
  by_cases hp : s.runner = .parked
  · rw [if_pos hp, if_pos (h.runner ▸ hp)]
    exact { h with runner := rfl }
  · rw [if_neg hp, if_neg (h.runner ▸ hp)]
    exact { h with permit := rfl }

theorem setMailbox [DecidableEq ι] (i : ι) {q : List (Envelope τ α)} {q' : List (Envelope τ α')}
    (hq : List.Forall₂ (Envelope.Like M) q q') :
    Config.Like M R S { s with mailbox := Function.update s.mailbox i q }
      { s' with mailbox := Function.update s'.mailbox i q' } :=
  { h with mailbox := Pointwise.update h.mailbox i hq }

theorem push [DecidableEq ι] (i : ι) {env : Envelope τ α} {env' : Envelope τ α'}
    (henv : env.Like M env') : (s.push i env).Like M R S (s'.push i env') :=
  h.setMailbox i (List.rel_append (h.mailbox i) (.cons henv .nil))

theorem drop [DecidableEq ι] (i : ι) : (s.drop i).Like M R S (s'.drop i) := by
  have htask : Task.Like M R (S i) { s.tasks i with dropped := true }
      { s'.tasks i with dropped := true } := { h.tasks i with dropped := rfl }
  exact (h.setTask i htask).setMailbox i .nil

end Config.Like

/-! ## The steps -/

section Step

variable [DecidableEq ι] [DecidableEq τ] {sys : Topology ι τ α σ} {sys' : Topology ι τ α' σ'}
  {s : Config ι τ α σ} {s' : Config ι τ α' σ'} (hsys : sys.Like M S sys')
  (h : s.Like M (sys.Fits M) S s')
include hsys

omit [DecidableEq ι] in
/-- What a received message makes an actor do. -/
theorem Topology.Like.handleAny (i : ι) {x : σ} {x' : σ'} (hx : S i x x') {env : Envelope τ α}
    {env' : Envelope τ α'} (henv : env.Like M env') :
    S i (handleAny sys i x env).1 (handleAny sys' i x' env').1 ∧
      List.Forall₂ (Action.Like (sys.Fits M)) (handleAny sys i x env).2
        (handleAny sys' i x' env').2 := by
  unfold Prod.handleAny
  rw [← henv.msg.typeId, ← (hsys.actor i).msgType]
  split
  · rename_i htype
    exact (hsys.actor i).handle hx (htype ▸ henv.msg.val)
  · exact ⟨hx, .nil⟩

include h

/-- One operation of an `actor_loop`. -/
theorem Config.Like.stepTask (i : ι) :
    Option.Rel (Config.Like M (sys.Fits M) S) (stepTask sys s i) (stepTask sys' s' i) := by
  obtain ⟨msgId', inFlight', permit', events', tasks', mailbox', external', runner'⟩ := s'
  obtain rfl : s.msgId = msgId' := h.msgId
  obtain rfl : s.inFlight = inFlight' := h.inFlight
  have htasks : ∀ j, (s.tasks j).Like M (sys.Fits M) (S j) (tasks' j) := h.tasks
  have ht := htasks i
  have hpc := ht.pc
  unfold Prod.stepTask
  simp only [← ht.dropped, ← ht.aborted, ← ht.stamps, ← hsys.name]
  split
  · exact .none
  generalize (s.tasks i).pc = pc, (tasks' i).pc = pc' at hpc
  cases hpc with
  | spawned =>
    simp only
    split
    · exact .none
    · obtain ⟨hS, hcalls⟩ := (hsys.actor i).started ht.state
      exact .some (h.setTask i ⟨.body _ hcalls, hS, rfl, rfl, rfl⟩)
  | body phase hrest =>
    cases hrest with
    | nil =>
      cases phase with
      | started => exact .some (h.setPc i .waiting)
      | handling =>
        refine .some (h.fetchSub.setPc i ?_)
        split
        · exact .notifying
        · exact .waiting
    | cons hcall hrest =>
      cases hcall with
      | compute => exact .some ((h.record rfl).setTask i ⟨.body _ hrest, ht.state, rfl, rfl, rfl⟩)
      | send hmsg =>
        exact .some (h.number.setPc i (.numbered _ _ _ hrest hmsg))
  | @numbered phase addr m rest rest' msg msg' hrest hmsg =>
    have htype := (hsys.actor addr).msgType
    let c := (s.tasks i).stamps.bump (sys.name i)
    have henv : (c.envelope (sys.name i) m (sys.addr addr) msg).Like M
        (c.envelope (sys.name i) m (sys'.addr addr) msg') :=
      ⟨⟨htype, hmsg⟩, rfl, rfl, rfl, rfl, congrFun hsys.name addr⟩
    have hemit := emitEvent_like henv (sys.name i) c.seq
    exact .some ((h.record hemit).setTask i ⟨.sending _ _ _ hrest henv, ht.state, rfl, rfl, rfl⟩)
  | sending phase stage addr hrest henv =>
    cases stage with
    | count => exact .some (h.incInFlight.setPc i (.sending _ _ _ hrest henv))
    | deliver =>
      simp only
      rw [← (htasks addr).dropped]
      split
      · exact .some (h.setPc i (.sending _ _ _ hrest henv))
      · exact .some ((h.push addr henv).setPc i (.body _ hrest))
    | undo =>
      refine .some (h.fetchSub.setPc i ?_)
      split
      · exact .sending _ _ _ hrest henv
      · exact .body _ hrest
    | wake => exact .some (h.notifyOne.setPc i (.body _ hrest))
  | waiting =>
    have hmail : List.Forall₂ (Envelope.Like M) (s.mailbox i) (mailbox' i) := h.mailbox i
    simp only
    generalize s.mailbox i = q, mailbox' i = q' at hmail
    cases hmail with
    | nil => exact .none
    | cons henv hq => exact .some ((h.setMailbox i hq).setPc i (.received henv))
  | received henv =>
    obtain ⟨hS, hcalls⟩ := hsys.handleAny i ht.state henv
    simp only [← receive_like henv, ← recvEvent_like henv]
    exact .some ((h.record rfl).setTask i ⟨.body _ hcalls, hS, rfl, rfl, rfl⟩)
  | notifying => exact .some (h.notifyOne.setPc i .waiting)

omit hsys [DecidableEq τ] in
theorem Config.Like.stepPanic (i : ι) :
    Option.Rel (Config.Like M (sys.Fits M) S) (stepPanic s i) (stepPanic s' i) := by
  have ht := h.tasks i
  have hpc := ht.pc
  unfold Prod.stepPanic
  rw [← ht.dropped]
  split
  · exact .none
  generalize (s.tasks i).pc = pc, (s'.tasks i).pc = pc' at hpc
  cases hpc with
  | body phase hrest => exact .some (h.drop i)
  | spawned | numbered | sending | waiting | received | notifying => exact .none

omit hsys [DecidableEq τ] in
theorem Config.Like.stepAbort (i : ι) :
    Option.Rel (Config.Like M (sys.Fits M) S) (stepAbort s i) (stepAbort s' i) := by
  have htask : Task.Like M (sys.Fits M) (S i) { s.tasks i with aborted := true }
      { s'.tasks i with aborted := true } := { h.tasks i with aborted := rfl }
  unfold Prod.stepAbort
  rw [← h.runner]
  split
  · exact .some (h.setTask i htask)
  · exact .none

omit hsys [DecidableEq τ] in
theorem Config.Like.stepCancel (i : ι) :
    Option.Rel (Config.Like M (sys.Fits M) S) (stepCancel s i) (stepCancel s' i) := by
  have ht := h.tasks i
  have hpc := ht.pc
  unfold Prod.stepCancel
  rw [← ht.dropped, ← ht.aborted]
  split
  · generalize (s.tasks i).pc = pc, (s'.tasks i).pc = pc' at hpc
    cases hpc with
    | spawned | waiting => exact .some (h.drop i)
    | body | numbered | sending | received | notifying => exact .none
  · exact .none

omit [DecidableEq ι] [DecidableEq τ] in
theorem Config.Like.stepSendExternal (addr : ι) {msg : α} {msg' : α'}
    (hmsg : sys.Fits M addr msg msg') : Option.Rel (Config.Like M (sys.Fits M) S)
      (stepSendExternal sys s addr msg) (stepSendExternal sys' s' addr msg') := by
  have henv : (worldEnvelope sys (s.msgId + 1) addr msg).Like M
      (worldEnvelope sys' (s'.msgId + 1) addr msg') :=
    ⟨⟨(hsys.actor addr).msgType, hmsg⟩, rfl, rfl, by rw [h.msgId]; rfl, rfl,
      congrFun hsys.name addr⟩
  have hx : External.Like M ⟨.record, addr, worldEnvelope sys (s.msgId + 1) addr msg⟩
      ⟨.record, addr, worldEnvelope sys' (s'.msgId + 1) addr msg'⟩ := ⟨rfl, rfl, henv⟩
  have hext := List.rel_append h.external (.cons hx .nil)
  unfold Prod.stepSendExternal
  by_cases hr : s.runner = .building
  · rw [if_pos hr, if_pos (h.runner ▸ hr)]
    exact .some { h.number with external := hext }
  · rw [if_neg hr, if_neg (h.runner ▸ hr)]
    exact .none

omit hsys [DecidableEq τ] in
theorem Config.Like.stepExternal (k : Nat) :
    Option.Rel (Config.Like M (sys.Fits M) S) (stepExternal s k) (stepExternal s' k) := by
  have hget := Pointwise.getElem? h.external k
  unfold Prod.stepExternal
  generalize s.external[k]? = o, s'.external[k]? = o' at hget
  cases hget with
  | none => exact .none
  | @some x x' hx =>
    obtain ⟨stage, addr, env⟩ := x
    obtain ⟨stage', addr', env'⟩ := x'
    obtain rfl : stage = stage' := hx.stage
    obtain rfl : addr = addr' := hx.addr
    have henv : env.Like M env' := hx.env
    have hset : ∀ stage, List.Forall₂ (External.Like M) (s.external.set k ⟨stage, addr, env⟩)
        (s'.external.set k ⟨stage, addr, env'⟩) := fun stage =>
      Pointwise.set ⟨rfl, rfl, henv⟩ h.external k
    cases stage with
    | record => exact .some { h.record (emitEvent_like henv "world" 1) with external := hset _ }
    | count => exact .some { h.incInFlight with external := hset _ }
    | deliver =>
      have herase := Pointwise.eraseIdx h.external k
      simp only
      rw [← (h.tasks addr).dropped]
      split
      · exact .some { h with external := herase }
      · exact .some { h.push addr henv with external := herase }

variable [Fintype ι]

omit hsys [DecidableEq ι] [DecidableEq τ] in
theorem Config.Like.stepRunner :
    Option.Rel (Config.Like M (sys.Fits M) S) (stepRunner s) (stepRunner s') := by
  obtain ⟨msgId', inFlight', permit', events', tasks', mailbox', external', runner'⟩ := s'
  obtain rfl : s.inFlight = inFlight' := h.inFlight
  obtain rfl : s.permit = permit' := h.permit
  obtain rfl : s.runner = runner' := h.runner
  have hdropped : (∀ i, (s.tasks i).dropped) ↔ ∀ i, (tasks' i).dropped :=
    forall_congr' fun i => by rw [(h.tasks i).dropped]
  have hempty : s.external.isEmpty = external'.isEmpty := by
    rw [Bool.eq_iff_iff, List.isEmpty_iff_length_eq_zero, List.isEmpty_iff_length_eq_zero,
      List.Forall₂.length_eq h.external]
  unfold Prod.stepRunner
  cases s.runner with
  | building =>
    simp only [hempty]
    split
    · exact .some { h with runner := rfl }
    · exact .none
  | polling => exact .some { h with runner := rfl }
  | awaiting =>
    simp only
    split
    · exact .some { h with permit := rfl, runner := rfl }
    · exact .some { h with runner := rfl }
  | parked => exact .none
  | exited =>
    simp only [hdropped]
    split
    · exact .some { h with runner := rfl }
    · exact .none
  | done => exact .none

/-- **One step**: systems alike, in states alike, take the same steps to states alike. -/
theorem Config.Like.step {l : Label ι α} {l' : Label ι α'} (hl : l.Like (sys.Fits M) l') :
    Option.Rel (Config.Like M (sys.Fits M) S) (step sys s l) (step sys' s' l') := by
  cases hl with
  | task i => exact h.stepTask hsys i
  | panic i => exact h.stepPanic i
  | abort i => exact h.stepAbort i
  | cancel i => exact h.stepCancel i
  | sendExternal addr hmsg => exact h.stepSendExternal hsys addr hmsg
  | external k => exact h.stepExternal k
  | runner => exact h.stepRunner

end Step

/-! ## The runs -/

section Runs

variable [DecidableEq ι] [DecidableEq τ] [Fintype ι] {sys : Topology ι τ α σ}
  {sys' : Topology ι τ α' σ'} (hsys : sys.Like M S sys')
include hsys

omit [DecidableEq ι] [DecidableEq τ] [Fintype ι] in
theorem Topology.Like.start : (Config.init sys).Like M (sys.Fits M) S (Config.init sys') :=
  ⟨rfl, rfl, rfl, rfl, fun i => ⟨.spawned, hsys.init i, rfl, rfl, rfl⟩, fun _ => .nil, .nil, rfl⟩

/-- What one of two systems alike can run through, so can the other. -/
theorem Run.like {ls : List (Label ι α)} {ls' : List (Label ι α')} {s : Config ι τ α σ}
    (h : Run sys ls s) (hl : List.Forall₂ (Label.Like (sys.Fits M)) ls ls') :
    ∃ s', Run sys' ls' s' ∧ s.Like M (sys.Fits M) S s' := by
  have hstep : ∀ s s' l l', Config.Like M (sys.Fits M) S s s' → Label.Like (sys.Fits M) l l' →
      Option.Rel (Config.Like M (sys.Fits M) S) (step sys s l) (step sys' s' l') :=
    fun _ _ _ _ hs hl => hs.step hsys hl
  have hrel := exec_rel hstep hl hsys.start
  unfold Run Transition.Run at h
  rw [h] at hrel
  cases hexec : exec (step sys') ls' (.init sys') with
  | none => rw [hexec] at hrel; cases hrel
  | some s' =>
    rw [hexec] at hrel
    cases hrel with
    | some hs => exact ⟨s', hexec, hs⟩

end Runs

theorem Pc.Like.idle {pc : Pc ι τ α} {pc' : Pc ι τ α'} (h : pc.Like M R pc') (hi : pc.idle) :
    pc'.idle := by
  cases h with
  | body phase hrest =>
    cases hrest with
    | nil => exact trivial
    | cons => exact hi.elim
  | spawned | numbered | sending => exact hi.elim
  | waiting | received | notifying => exact trivial

theorem countP_injects_like {ls : List (Label ι α)} {ls' : List (Label ι α')}
    (h : List.Forall₂ (Label.Like R) ls ls') :
    ls.countP Label.injects = ls'.countP Label.injects := by
  induction h with
  | nil => rfl
  | cons hl _ ih =>
    rw [List.countP_cons, List.countP_cons, ih]
    cases hl <;> rfl

/-- **The log does not say what was sent.**  Two systems alike, run through the same steps with
origins whose payloads stand for one another, record the same log.  The replay of the second system
on the log of the first, all at rest, has no divergences either: what certifies a run certifies every
run of payloads like it. -/
theorem log_blind [DecidableEq ι] [DecidableEq τ] [Fintype ι] {sys : Topology ι τ α σ}
    {sys' : Topology ι τ α' σ'} (hsys : sys.Like M S sys') {ls : List (Label ι α)}
    {ls' : List (Label ι α')} (hl : List.Forall₂ (Label.Like (sys.Fits M)) ls ls')
    {s : Config ι τ α σ} (h : Run sys ls s) :
    (∃ s', Run sys' ls' s' ∧ s'.events = s.events) ∧
    (Named sys → ls.countP Label.injects ≤ 1 → (∀ i, (s.tasks i).pc.idle) → s.msgId < 2 ^ 64 →
      ∀ log, log.Perm s.events → ∀ rs', Rebuilds sys' rs' →
        rs'.origins = ls'.filterMap (Label.origin sys') →
          ∃ out, rs'.replay log = .ok out ∧ out.divergences = []) := by
  obtain ⟨s', h', hs⟩ := h.like hsys hl
  refine ⟨⟨s', h', hs.events.symm⟩, fun hn h1 hidle hm log hp rs' hr ho => ?_⟩
  have hn' : Named sys' := ⟨hsys.name ▸ hn.injective, hsys.name ▸ hn.not_world⟩
  obtain ⟨r, d, hrun, hnone⟩ := h'.replayed hn' (countP_injects_like hl ▸ h1)
    (fun i => (hs.tasks i).pc.idle (hidle i)) (hs.msgId ▸ hm) (hs.events ▸ hp) hr ho
  exact ⟨_, replay_of_run hrun, hnone⟩

/-- The couriers, handing every number on changed by `f`. -/
def changingCouriers (f : Nat → Nat) : Topology Bool Unit Nat Unit where
  name := couriers.name
  actor courier := ⟨(), fun s => (s, []), fun s n => (s, if courier then [.send false (f n)] else [])⟩
  init _ := ()

/-- A courier that triples what it should double passes for the one that doubles it. -/
theorem log_blind_tripled : ∃ s out, Run (changingCouriers (2 * ·)) deliveredRun s ∧
    s.events.length = 4 ∧
    (((changingCouriers (3 * ·)).respawn [false, true]).origin
      ((changingCouriers (3 * ·)).addr true) 7).replay s.events = .ok out ∧
    out.divergences = [] := by
  let M : Unit → Nat → Nat → Prop := fun _ _ _ => True
  have hlike : (changingCouriers (2 * ·)).Like M (fun _ => Eq) (changingCouriers (3 * ·)) := by
    refine ⟨rfl, fun i => ⟨rfl, fun _ => ⟨rfl, .nil⟩, fun _ _ => ⟨rfl, ?_⟩⟩, fun _ => rfl⟩
    cases i
    · exact .nil
    · exact .cons (.send trivial) .nil
  have hlabels : List.Forall₂ (Label.Like ((changingCouriers (2 * ·)).Fits M)) deliveredRun
      deliveredRun := by
    refine List.forall₂_same.mpr fun l _ => ?_
    cases l with
    | task i => exact .task i
    | panic i => exact .panic i
    | abort i => exact .abort i
    | cancel i => exact .cancel i
    | sendExternal addr msg => exact .sendExternal addr trivial
    | external k => exact .external k
    | runner => exact .runner
  obtain ⟨s, hrun, hlen, hidle, hm⟩ : ∃ s, Run (changingCouriers (2 * ·)) deliveredRun s ∧
      s.events.length = 4 ∧ (∀ i, (s.tasks i).pc.idle) ∧ s.msgId = 2 := by
    refine ⟨_, rfl, rfl, fun i => ?_, rfl⟩
    cases i <;> trivial
  have hr : Rebuilds (changingCouriers (3 * ·)) ((changingCouriers (3 * ·)).respawn [false, true]) :=
    rebuilds_of_respawn ⟨by decide, by decide⟩ (by decide)
  obtain ⟨-, hcertified⟩ := log_blind hlike hlabels hrun
  obtain ⟨out, hout, hnone⟩ := hcertified ⟨by decide, by decide⟩ (by decide) hidle (by omega)
    s.events (.refl _) _ (hr.origin ((changingCouriers (3 * ·)).addr true) 7) rfl
  exact ⟨s, out, hrun, hlen, hout, hnone⟩

end Lichtung.Prod
