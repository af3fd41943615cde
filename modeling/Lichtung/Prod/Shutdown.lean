import Lichtung.Prod.Pipeline

/-!
# The shutdown of the production system

Once the wait loop of `run_until_quiescent` is left, every task is aborted and joined, the channel of
the log is closed and the writer awaited.  A task in user code runs on to its next `.await` before
the abort takes effect, and may send and record until then; none of its operations waits for another
task, so each has finitely many left.

Principal results: `progress` (a task on its way to an `.await` has a step, and fewer left after it),
`joins` (every task can be joined) and `shutdown_completes`.
-/

namespace Lichtung.Prod

open Transition

variable {ι τ α σ : Type} [DecidableEq ι] [DecidableEq τ] {sys : Topology ι τ α σ}
  {c c' : Config ι τ α σ}

/-! ## One task on its way to an `.await` -/

/-- At a point where an abort takes effect. -/
def Pc.awaits : Pc ι τ α → Prop
  | .spawned | .waiting => True
  | _ => False

/-- The operations a task has left before its next `.await`, at most. -/
def Pc.left : Pc ι τ α → Nat
  | .spawned | .waiting => 0
  | .notifying => 1
  | .body _ rest => 7 * rest.length + 2
  | .sending _ rest .wake _ _ => 7 * rest.length + 3
  | .sending _ rest .undo _ _ => 7 * rest.length + 4
  | .sending _ rest .deliver _ _ => 7 * rest.length + 5
  | .sending _ rest .count _ _ => 7 * rest.length + 6
  | .numbered _ rest _ _ _ => 7 * rest.length + 7
  | .received _ => 0

/-- The operations left, those of the handler about to run included. -/
def left (sys : Topology ι τ α σ) (i : ι) (t : Task ι τ α σ) : Nat :=
  match t.pc with
  | .received env => 7 * (handleAny sys i t.state env).2.length + 3
  | pc => pc.left

/-- Task `i` moves alone, and the runner goes on with its shutdown. -/
structure Moves (i : ι) (c c' : Config ι τ α σ) : Prop where
  others : ∀ j, j ≠ i → c'.tasks j = c.tasks j
  runner : c'.runner = c.runner

omit [DecidableEq ι] [DecidableEq τ] in
theorem Moves.trans {i : ι} {c c₁ c' : Config ι τ α σ} (h : Moves i c c₁) (h' : Moves i c₁ c') :
    Moves i c c' :=
  ⟨fun j hj => (h'.others j hj).trans (h.others j hj), h'.runner.trans h.runner⟩

omit [DecidableEq τ] in
theorem Moves.task {i : ι} {t : Task ι τ α σ} (htasks : c'.tasks = Function.update c.tasks i t)
    (hr : c'.runner = c.runner) : Moves i c c' where
  others := fun j hj => by rw [htasks, Function.update_of_ne hj]
  runner := hr

omit [DecidableEq ι] [DecidableEq τ] in
theorem notifyOne_exited (hr : c.runner = .exited) : c.notifyOne.runner = .exited := by
  unfold Config.notifyOne
  rw [if_neg (by rw [hr]; simp)]
  exact hr

variable (sys) in
/-- A task on its way to an `.await` has a next operation. -/
theorem stepTask_isSome {i : ι} (hd : (c.tasks i).dropped = false)
    (hpc : ¬ (c.tasks i).pc.awaits) : ∃ c', stepTask sys c i = some c' := by
  unfold stepTask
  simp only [hd, Bool.false_eq_true, if_false]
  cases h : (c.tasks i).pc with
  | spawned | waiting => rw [h] at hpc; exact absurd trivial hpc
  | body phase rest =>
    cases rest with
    | nil => cases phase <;> exact ⟨_, rfl⟩
    | cons a rest => cases a <;> exact ⟨_, rfl⟩
  | numbered | received | notifying => exact ⟨_, rfl⟩
  | sending phase rest stage addr env =>
    cases stage with
    | count | undo | wake => exact ⟨_, rfl⟩
    | deliver =>
      by_cases hgone : (c.tasks addr).dropped = true
      · exact ⟨_, if_pos hgone⟩
      · exact ⟨_, if_neg hgone⟩

variable [Fintype ι]

variable (sys) in
/-- **A task on its way to an `.await` has a step, and fewer left after it.** -/
theorem progress {i : ι} (hr : c.runner = .exited) (hd : (c.tasks i).dropped = false)
    (hpc : ¬ (c.tasks i).pc.awaits) : ∃ c', step sys c (.task i) = some c' ∧ Moves i c c' ∧
      (c'.tasks i).dropped = false ∧ left sys i (c'.tasks i) < left sys i (c.tasks i) := by
  obtain ⟨c', h⟩ := stepTask_isSome sys hd hpc
  refine ⟨c', h, ?_⟩
  have hs : Step sys c (.task i) c' := step_cases sys h
  have hmove : ∀ {t : Task ι τ α σ} {pc : Pc ι τ α}, (c.tasks i).pc = pc →
      c'.tasks = Function.update c.tasks i t → c'.runner = .exited → t.dropped = false →
        (∀ t', t'.pc = pc → t'.state = (c.tasks i).state → left sys i t < left sys i t') →
          Moves i c c' ∧ (c'.tasks i).dropped = false ∧
            left sys i (c'.tasks i) < left sys i (c.tasks i) := by
    intro t pc hpc htasks hr' ht hlt
    refine ⟨.task htasks (hr'.trans hr.symm), ?_⟩
    rw [htasks, Function.update_self]
    exact ⟨ht, hlt _ hpc rfl⟩
  have hnotify := notifyOne_exited hr
  cases hs with
  | start _ hp | dequeue _ hp => exact absurd (by rw [hp]; trivial) hpc
  | compute _ hp | number _ hp =>
    refine hmove hp rfl hr hd fun t' h' _ => ?_
    simp only [left, h', Pc.left, List.length_cons]
    omega
  | startedDone _ hp | emit _ hp | count _ hp | deliver _ hp | bounce _ hp =>
    refine hmove hp rfl hr hd fun t' h' _ => ?_
    simp only [left, h', Pc.left]
    omega
  | handled _ hp | undo _ hp =>
    refine hmove hp rfl hr hd fun t' h' _ => ?_
    by_cases h1 : c.inFlight = 1
    · simp only [left, h', if_pos h1, Pc.left]
      omega
    · simp only [left, h', if_neg h1, Pc.left]
      omega
  | wake _ hp | notify _ hp =>
    refine hmove hp (c.notifyOne_setPc_tasks i _) hnotify hd fun t' h' _ => ?_
    simp only [left, h', Pc.left]
    omega
  | receive _ hp =>
    refine hmove hp rfl hr hd fun t' h' hstate => ?_
    simp only [left, h', Pc.left, hstate]
    omega

variable (sys) in
/-- A task left to itself comes to an `.await`. -/
theorem awaits_reached {i : ι} : ∀ (n : Nat) {c : Config ι τ α σ}, c.runner = .exited →
    (c.tasks i).dropped = false → left sys i (c.tasks i) ≤ n →
      ∃ ls c', Transition.Run (step sys) c ls c' ∧ Moves i c c' ∧
        (c'.tasks i).dropped = false ∧ (c'.tasks i).pc.awaits := by
  intro n
  induction n with
  | zero =>
    intro c hr hd hn
    refine ⟨[], c, .nil c, ⟨fun _ _ => rfl, rfl⟩, hd, ?_⟩
    by_contra hpc
    obtain ⟨c', -, -, -, hlt⟩ := progress sys hr hd hpc
    omega
  | succ n ih =>
    intro c hr hd hn
    by_cases hpc : (c.tasks i).pc.awaits
    · exact ⟨[], c, .nil c, ⟨fun _ _ => rfl, rfl⟩, hd, hpc⟩
    · obtain ⟨c₁, hstep, hmove, hd1, hlt⟩ := progress sys hr hd hpc
      obtain ⟨ls, c', hrun, hmove', hd', hpc'⟩ := ih (hmove.runner.trans hr) hd1 (by omega)
      exact ⟨.task i :: ls, c', .cons hstep hrun, hmove.trans hmove', hd', hpc'⟩

omit [DecidableEq τ] [Fintype ι] in
/-- An abort takes effect at an `.await`. -/
theorem cancel_of_awaits {i : ι} (ha : (c.tasks i).aborted = true)
    (hd : (c.tasks i).dropped = false) (hpc : (c.tasks i).pc.awaits) :
    stepCancel c i = some (c.drop i) := by
  unfold stepCancel
  rw [if_pos ⟨ha, by simp [hd]⟩]
  cases hp : (c.tasks i).pc with
  | spawned | waiting => rfl
  | body | numbered | sending | received | notifying => rw [hp] at hpc; exact hpc.elim

/-- A task is aborted, runs on to its next `.await`, and is gone. -/
theorem cancels (sys : Topology ι τ α σ) (hr : c.runner = .exited) (i : ι) :
    ∃ ls c', Transition.Run (step sys) c ls c' ∧ Moves i c c' ∧ (c'.tasks i).dropped = true := by
  by_cases hd : (c.tasks i).dropped = true
  · exact ⟨[], c, .nil c, ⟨fun _ _ => rfl, rfl⟩, hd⟩
  · obtain ⟨ls, c₁, hrun, hmove, hd1, hpc⟩ :=
      awaits_reached sys _ hr (by simpa using hd) le_rfl
    have hr1 : c₁.runner = .exited := hmove.runner.trans hr
    have habort : step sys c₁ (.abort i) =
        some (c₁.setTask i { c₁.tasks i with aborted := true }) := if_pos hr1
    have htask : (c₁.setTask i { c₁.tasks i with aborted := true }).tasks i =
        { c₁.tasks i with aborted := true } := Function.update_self ..
    have hcancel : step sys (c₁.setTask i { c₁.tasks i with aborted := true }) (.cancel i) =
        some ((c₁.setTask i { c₁.tasks i with aborted := true }).drop i) :=
      cancel_of_awaits (by rw [htask]) (by rw [htask]; exact hd1) (by rw [htask]; exact hpc)
    refine ⟨ls ++ [.abort i, .cancel i],
      (c₁.setTask i { c₁.tasks i with aborted := true }).drop i,
      Run.append_iff.mpr ⟨c₁, hrun, .cons habort (.cons hcancel (.nil _))⟩,
      hmove.trans ⟨fun j hj => ?_, rfl⟩, ?_⟩
    · simp [Config.drop, Config.setTask, Function.update_of_ne hj]
    · simp [Config.drop, Config.setTask]

/-- **Every task can be joined.** -/
theorem joins (sys : Topology ι τ α σ) (hr : c.runner = .exited) :
    ∃ ls c', Transition.Run (step sys) c ls c' ∧ c'.runner = .done := by
  have hall : ∀ is : List ι, ∃ ls c', Transition.Run (step sys) c ls c' ∧ c'.runner = .exited ∧
      ∀ i ∈ is, (c'.tasks i).dropped = true := by
    intro is
    induction is with
    | nil => exact ⟨[], c, .nil c, hr, fun i hi => by cases hi⟩
    | cons i is ih =>
      obtain ⟨ls, c₁, hrun, hr1, hgone⟩ := ih
      obtain ⟨ls', c', hrun', hmove, hi⟩ := cancels sys hr1 i
      refine ⟨ls ++ ls', c', Run.append_iff.mpr ⟨c₁, hrun, hrun'⟩, hmove.runner.trans hr1, ?_⟩
      intro j hj
      by_cases hji : j = i
      · rw [hji]
        exact hi
      · rw [hmove.others j hji]
        exact hgone j ((List.mem_cons.mp hj).resolve_left hji)
  obtain ⟨ls, c', hrun, hr', hgone⟩ := hall Finset.univ.toList
  have hgone' : ∀ i, (c'.tasks i).dropped = true := fun i =>
    hgone i (Finset.mem_toList.mpr (Finset.mem_univ i))
  have hjoin : step sys c' .runner = some { c' with runner := .done } := by
    simp only [step, stepRunner, hr']
    exact if_pos hgone'
  exact ⟨ls ++ [.runner], _, Run.append_iff.mpr ⟨c', hrun, .cons hjoin (.nil _)⟩, rfl⟩

/-! ## The end of the log -/

namespace Pipeline

variable {W : Type} {json : SerdeJson} {sink : Sink W} {contents : W → List UInt8} {cap : Nat}
  {s s' : Pipeline ι τ α σ W} {w : W} {ls : List (Label ι α)}

/-- **Shutdown completes with nothing lost.**  Over a sink without errors, from every reachable state
past the wait loop of `run_until_quiescent` there are steps that make it return, and all it can
return is `Ok` of the number of events recorded, every one of them in the sink. -/
theorem shutdown_completes (hjson : json.Lawful) (hsink : sink.NoError contents)
    (hw : contents w = []) (h : Run sys json sink cap w ls s) (hleft : s.system.runner.left) :
    (∀ r, s.result = some r → r = .ok s.system.events.length ∧
      contents s.writer.bw.inner = logBytes json s.system.events) ∧
    ∃ ls' s', Transition.Run (step sys json sink cap) s ls' s' ∧
      s'.result = some (.ok s'.system.events.length) ∧
      contents s'.writer.bw.inner = logBytes json s'.system.events := by
  have hreturned : ∀ {ls : List (Label ι α)} {s : Pipeline ι τ α σ W},
      Run sys json sink cap w ls s → ∀ r, s.result = some r →
        r = .ok s.system.events.length ∧
          contents s.writer.bw.inner = logBytes json s.system.events := by
    intro ls s h r hr
    have hk := h.kept hjson hsink.honest hw
    cases r with
    | error err =>
      refine absurd ?_ (h.live hjson hsink)
      rw [hk.result _ hr]
      trivial
    | ok n =>
      obtain ⟨-, rfl, hbytes⟩ := hk.returned hr
      exact ⟨rfl, hbytes⟩
  refine ⟨hreturned h, ?_⟩
  cases hres : s.result with
  | some r =>
    obtain ⟨rfl, hbytes⟩ := hreturned h r hres
    exact ⟨[], s, .nil s, hres, hbytes⟩
  | none =>
    obtain ⟨pre, s₁, hpre, hdone, hres1⟩ : ∃ pre s₁,
        Transition.Run (step sys json sink cap) s pre s₁ ∧ s₁.system.runner = .done ∧
          s₁.result = none := by
      cases hr : s.system.runner with
      | done => exact ⟨[], s, .nil s, hr, hres⟩
      | exited =>
        obtain ⟨ls', c', hrun, hdone⟩ := joins sys hr
        obtain ⟨s₁, hpre, rfl, hres1⟩ := lift json sink cap hrun
        exact ⟨_, s₁, hpre, hdone, hres1.trans hres⟩
      | building | polling | awaiting | parked => rw [hr] at hleft; exact hleft.elim
    obtain ⟨post, s', r, hpost, -, -, hr⟩ := completes_of_done hjson hsink hdone hres1
    have hrun := Run.append_iff.mpr ⟨s₁, hpre, hpost⟩
    obtain ⟨rfl, hbytes⟩ := hreturned (Run.append_iff.mpr ⟨s, h, hrun⟩) r hr
    exact ⟨_, s', hrun, hr, hbytes⟩

/-- The lone actor has handled its origin, and the wait loop is left. -/
def exitedRun : List (Prod.Label Unit Nat) := servedRun ++ [.runner]

theorem shutdown_completes_lone : ∃ ls s ls' s', Run lone compactJson listSink 8192 [] ls s ∧
    s.system.runner = .exited ∧
    Transition.Run (step lone compactJson listSink 8192) s ls' s' ∧
    s'.result = some (.ok s'.system.events.length) := by
  obtain ⟨c, hrun, hexited⟩ : ∃ c : Config Unit Unit Nat Unit,
      Prod.Run lone exitedRun c ∧ c.runner = .exited := ⟨_, rfl, rfl⟩
  obtain ⟨s, hall, rfl, -⟩ := lift compactJson listSink 8192 (s := init lone []) hrun
  obtain ⟨-, ls', s', hrun', hr, -⟩ := shutdown_completes compactJson_lawful listSink_noError rfl
    hall (by rw [hexited]; trivial)
  exact ⟨_, s, ls', s', hall, hexited, hrun', hr⟩

end Pipeline

end Lichtung.Prod
