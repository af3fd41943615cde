import Lichtung.Prod.Ledger

/-!
# Messages for dead actors

When a message can no longer be handled, its count is undone only where `ProdDispatch::deliver`
finds the mailbox closed.  The message being handled by a task that ends, the messages in its
mailbox, and a later `send_external` to it stay counted.

Principal results: `released_iff` (the counter returns to zero, and the runner is not left waiting,
exactly on the runs that strand nothing) and `left_waiting_run` (a run that strands a message).
-/

namespace Lichtung.Prod

open Transition

variable {ι τ α σ : Type}

/-- In `Context::send`. -/
def Pc.inSend : Pc ι τ α → Bool
  | .numbered .. | .sending .. => true
  | _ => false

/-- No live actor has a queued or in-progress message, and no send is in progress. -/
structure AtRest (s : Config ι τ α σ) : Prop where
  mailbox : ∀ i, (s.tasks i).dropped = false → s.mailbox i = []
  handling : ∀ i, (s.tasks i).dropped = false → (s.tasks i).pc.handling = 0
  inSend : ∀ i, (s.tasks i).dropped = false → (s.tasks i).pc.inSend = false
  external : s.external = []

/-- Parked, with no task about to notify. -/
def LeftWaiting (s : Config ι τ α σ) : Prop :=
  s.runner = .parked ∧ ∀ i, (s.tasks i).dropped = false → (s.tasks i).pc.wakes = false

/-- A dropped task has dropped its mailbox. -/
def Closed (s : Config ι τ α σ) : Prop := ∀ i, (s.tasks i).dropped = true → s.mailbox i = []

section Closed

variable [DecidableEq ι] {s s' : Config ι τ α σ}

theorem Closed.task (h : Closed s) (i : ι) {t : Task ι τ α σ}
    (htasks : s'.tasks = Function.update s.tasks i t) (hmail : s'.mailbox = s.mailbox)
    (hd : t.dropped = (s.tasks i).dropped) : Closed s' := by
  intro j hj
  rw [hmail]
  rw [htasks] at hj
  by_cases hij : j = i
  · subst hij
    rw [Function.update_self, hd] at hj
    exact h j hj
  · rw [Function.update_of_ne hij] at hj
    exact h j hj

theorem Closed.mail (h : Closed s) (i : ι) {q : List (Envelope τ α)}
    (htasks : s'.tasks = s.tasks) (hmail : s'.mailbox = Function.update s.mailbox i q)
    (hd : (s.tasks i).dropped = true → q = []) : Closed s' := by
  intro j hj
  rw [hmail]
  rw [htasks] at hj
  by_cases hij : j = i
  · subst hij; rw [Function.update_self]; exact hd hj
  · rw [Function.update_of_ne hij]; exact h j hj

theorem Closed.push (h : Closed s) {i : ι} (env : Envelope τ α)
    (hd : (s.tasks i).dropped = false) : Closed (s.push i env) :=
  h.mail i rfl rfl fun hd' => by rw [hd] at hd'; cases hd'

theorem Closed.drop (h : Closed s) (i : ι) : Closed (s.drop i) := by
  intro j hj
  by_cases hij : j = i
  · subst hij; simp [Config.drop]
  · simp only [Config.drop, Config.setTask, Function.update_of_ne hij] at hj ⊢
    exact h j hj

variable [DecidableEq τ] [Fintype ι] {sys : Topology ι τ α σ}

omit [Fintype ι] in
theorem Closed.step {l : Label ι α} (h : Closed s) (hs : Step sys s l s') : Closed s' := by
  cases hs with
  | @deliver i phase rest addr env hd hpc hlive => exact (h.push env hlive).task i rfl rfl rfl
  | @dequeue i env queue hd hpc hq =>
    have hqueue : Closed { s with mailbox := Function.update s.mailbox i queue } :=
      h.mail i rfl rfl fun hd' => by rw [hd] at hd'; cases hd'
    exact hqueue.task i rfl rfl rfl
  | @wake i phase rest addr env hd hpc =>
    exact h.task i (s.notifyOne_setPc_tasks i _) s.notifyOne_mailbox rfl
  | @notify i hd hpc => exact h.task i (s.notifyOne_setPc_tasks i _) s.notifyOne_mailbox rfl
  | panic | cancel => exact h.drop _
  | extDeliver hk hx hlive => exact h.push _ hlive
  | sendExternal | extRecord | extCount | extLost | call | exit | again | permit | park | join =>
    exact h
  | start | compute | number | startedDone | handled | emit | count | bounce | undo | receive
  | abort => exact h.task _ rfl rfl rfl

end Closed

variable [DecidableEq ι] [DecidableEq τ] [Fintype ι] {sys : Topology ι τ α σ}
  {s : Config ι τ α σ}

theorem Run.closed {ls : List (Label ι α)} (h : Run sys ls s) : Closed s :=
  Transition.Run.induct (fun hstep hc => Closed.step hc (step_cases sys hstep)) h fun _ _ => rfl

omit [DecidableEq ι] [DecidableEq τ] in
/-- At rest nothing is on its way. -/
theorem AtRest.load (h : AtRest s) (hc : Closed s) : s.load (counted ι τ α σ) = 0 := by
  have h1 : total (counted ι τ α σ).task s.tasks = 0 := by
    refine total_eq_zero fun i => ?_
    cases hd : (s.tasks i).dropped with
    | true => simp [counted, hd]
    | false =>
      have hh := h.handling i hd
      have hs := h.inSend i hd
      have ho : (s.tasks i).pc.outgoing = 0 := by
        cases hpc : (s.tasks i).pc with
        | sending => rw [hpc] at hs; cases hs
        | _ => rfl
      simp only [counted, Task.handling, Task.outgoing, hd, Bool.false_eq_true, if_false, hh, ho,
        Nat.add_zero]
  have h2 : total (counted ι τ α σ).mail s.mailbox = 0 := by
    refine total_eq_zero fun i => ?_
    cases hd : (s.tasks i).dropped with
    | true => rw [hc i hd]; rfl
    | false => rw [h.mailbox i hd]; rfl
  simp only [Config.load, h1, h2, h.external]
  rfl

/-- **The counter returns to zero exactly where nothing was stranded.**  In every state at rest:
`in_flight` is 0 and `run_until_quiescent` is not left waiting if and only if no step of the run
ended a task that was handling a message or had messages in its mailbox, or delivered a
`send_external` to a closed mailbox. -/
theorem released_iff {ls : List (Label ι α)} (h : Run sys ls s) (hrest : AtRest s) :
    (s.inFlight = 0 ∧ ¬ LeftWaiting s) ↔
      Along (step sys) (fun s l => strands s l = 0) ls (.init sys) := by
  obtain ⟨hb, hw⟩ := h.balanced
  have hcount : s.inFlight = strandedBy sys ls (.init sys) := by
    rw [hb, hrest.load h.closed, Nat.zero_add]
  rw [hcount]
  refine Iff.trans (and_iff_left_of_imp fun h0 hwait => ?_) (strandedBy_eq_zero h)
  -- a parked runner at zero has a wake-up on its way
  rcases hw.parked hwait.1 with hpos | ⟨i, hd, hi⟩
  · omega
  · rw [hwait.2 i hd] at hi; cases hi

/-! ## A run that strands a message -/

/-- One actor that handles numbers and sends nothing. -/
def lone : Topology Unit Unit Nat Unit where
  name _ := "a"
  actor _ := ⟨(), fun s => (s, []), fun s _ => (s, [])⟩
  init _ := ()

/-- The actor starts, an origin is sent to it, it dies while handling it; then
`run_until_quiescent` is called. -/
def dyingRun : List (Label Unit Nat) :=
  [.task (), .task (), .sendExternal () 7, .external 0, .external 0, .external 0, .task (),
    .task (), .panic (), .runner, .runner, .runner]

theorem dyingRun_end :
    ∃ s, Run lone dyingRun s ∧ AtRest s ∧ s.inFlight = 1 ∧ LeftWaiting s := by
  refine ⟨_, rfl, ⟨?_, ?_, ?_, rfl⟩, rfl, rfl, ?_⟩ <;> intro i h <;> cases h

/-- At rest, and yet the dead actor's message is counted and the runner waits for good. -/
theorem left_waiting_run : ¬ ∀ ls (s : Config Unit Unit Nat Unit), Run lone ls s → AtRest s →
    s.inFlight = 0 ∧ ¬ LeftWaiting s := by
  intro h
  obtain ⟨s, hrun, hrest, -, hwait⟩ := dyingRun_end
  exact (h _ s hrun hrest).2 hwait

theorem released_iff_lone : ∃ s, Run lone dyingRun s ∧
    ¬ Along (step lone) (fun s l => strands s l = 0) dyingRun (.init lone) := by
  obtain ⟨s, hrun, hrest, hcount, -⟩ := dyingRun_end
  refine ⟨s, hrun, fun h => ?_⟩
  have := ((released_iff hrun hrest).mpr h).1
  omega

end Lichtung.Prod
