import Lichtung.Prod.Death

/-!
# Quiescence

What a zero of the in-flight counter says, in runs without a panic.  Until the wait loop is left no
task is dropped, so the counter is exact.  A zero is final once every `started` that sends has
completed: then the runner's exit overtakes nothing, and every recorded emit has its recv.

Principal results: `zero_is_quiescent` (exact accounting, and a final zero for actors whose
`started` sends nothing), `settled_iff` (any actors: the exit has to wait for every `started`) and
`exit_overtakes_started` (a run where it does not).
-/

namespace Lichtung.Prod

open Transition

variable {ι τ α σ : Type}

/-! ## Program counters -/

/-- `started` has run to completion. -/
def Pc.begun : Pc ι τ α → Prop
  | .spawned | .body .started _ | .numbered .started .. | .sending .started .. => False
  | _ => True

/-- A running `started` sends nothing any more. -/
def Pc.silent : Pc ι τ α → Prop
  | .body .started rest => ∀ a ∈ rest, a = .compute
  | .numbered .started .. | .sending .started .. => False
  | _ => True

/-- Handles nothing, and what is left of `started` sends nothing. -/
def Pc.still : Pc ι τ α → Prop
  | .spawned | .waiting | .notifying => True
  | .body .started rest => ∀ a ∈ rest, a = .compute
  | _ => False

theorem Pc.begun.silent {pc : Pc ι τ α} (h : pc.begun) : pc.silent := by
  cases pc with
  | body phase => cases phase with
    | started => exact absurd h id
    | handling => trivial
  | numbered phase => cases phase with
    | started => exact absurd h id
    | handling => trivial
  | sending phase => cases phase with
    | started => exact absurd h id
    | handling => trivial
  | _ => trivial

theorem Pc.silent.still {pc : Pc ι τ α} (h : pc.silent) (h0 : pc.handling = 0) : pc.still := by
  cases pc with
  | body phase => cases phase with
    | started => exact h
    | handling => cases h0
  | numbered phase => cases phase with
    | started => exact absurd h id
    | handling => cases h0
  | sending phase => cases phase with
    | started => exact absurd h id
    | handling => cases h0
  | received => cases h0
  | _ => trivial

theorem Pc.still.inSend {pc : Pc ι τ α} (h : pc.still) : pc.inSend = false := by
  cases pc with
  | numbered | sending => exact absurd h id
  | _ => rfl

theorem Pc.still.handling {pc : Pc ι τ α} (h : pc.still) : pc.handling = 0 := by
  cases pc with
  | body phase => cases phase with
    | started => rfl
    | handling => exact absurd h id
  | numbered | sending | received => exact absurd h id
  | _ => rfl

theorem Pc.still.outgoing {pc : Pc ι τ α} (h : pc.still) : pc.outgoing = 0 := by
  cases pc with
  | sending => exact absurd h id
  | _ => rfl

theorem Pc.still.carried {pc : Pc ι τ α} (h : pc.still) : pc.carried = 0 := by
  cases pc with
  | sending | received => exact absurd h id
  | _ => rfl

/-! ## Nothing is dropped before the exit -/

/-- The wait loop has been left. -/
def Runner.left : Runner → Prop
  | .exited | .done => True
  | _ => False

/-- No task was aborted or dropped: every mailbox is open. -/
def Undropped (s : Config ι τ α σ) : Prop :=
  ∀ i, (s.tasks i).aborted = false ∧ (s.tasks i).dropped = false

section Parts

variable [DecidableEq ι] {s s' : Config ι τ α σ}

theorem Undropped.task (h : Undropped s) (i : ι) {t : Task ι τ α σ}
    (htasks : s'.tasks = Function.update s.tasks i t) (ha : t.aborted = (s.tasks i).aborted)
    (hd : t.dropped = (s.tasks i).dropped) : Undropped s' := by
  intro j
  rw [htasks]
  by_cases hij : j = i
  · subst hij
    rw [Function.update_self, ha, hd]
    exact h j
  · rw [Function.update_of_ne hij]
    exact h j

end Parts

variable [DecidableEq ι] [DecidableEq τ] [Fintype ι] {sys : Topology ι τ α σ}
  {s s' : Config ι τ α σ}

/-- Not a panic. -/
def Label.quiet : Label ι α → Prop
  | .panic _ => False
  | _ => True

omit [DecidableEq ι] [DecidableEq τ] [Fintype ι] in
theorem notifyOne_runner (h : ¬ s.runner.left) : ¬ s.notifyOne.runner.left := by
  unfold Config.notifyOne
  split
  · exact id
  · exact h

omit [Fintype ι] in
/-- While the wait loop runs, a step that is no panic drops nothing, strands nothing and loses
nothing. -/
theorem Undropped.step {l : Label ι α} (h : Undropped s) (hr : ¬ s.runner.left) (hl : l.quiet)
    (hs : Step sys s l s') :
    Undropped s' ∧ strands s l = 0 ∧ loss s l = 0 := by
  have hlive := fun i => (h i).2
  cases hs with
  | panic => exact absurd hl id
  | abort hr' => rw [hr'] at hr; exact absurd trivial hr
  | @cancel i ha => rw [(h i).1] at ha; cases ha
  | @bounce i phase rest addr env hd hpc hgone => rw [hlive addr] at hgone; cases hgone
  | @extLost k x hk hx hgone => rw [hlive x.addr] at hgone; cases hgone
  | @wake i phase rest addr env hd hpc =>
    exact ⟨h.task i (s.notifyOne_setPc_tasks i _) rfl rfl, rfl, by simp [loss, hpc]⟩
  | @notify i hd hpc =>
    exact ⟨h.task i (s.notifyOne_setPc_tasks i _) rfl rfl, rfl, by simp [loss, hpc]⟩
  | @deliver i phase rest addr env hd hpc hlive =>
    have hpush : Undropped (s.push addr env) := h
    exact ⟨hpush.task i rfl rfl rfl, rfl, by simp [loss, hpc, hlive]⟩
  | @dequeue i env queue hd hpc hq =>
    have hqueue : Undropped { s with mailbox := Function.update s.mailbox i queue } := h
    exact ⟨hqueue.task i rfl rfl rfl, rfl, by simp [loss, hpc]⟩
  | sendExternal => exact ⟨h, rfl, rfl⟩
  | extRecord hk hx => exact ⟨h, by simp [strands, hk, hx], by simp [loss, hk, hx]⟩
  | extCount hk hx => exact ⟨h, by simp [strands, hk, hx], by simp [loss, hk, hx]⟩
  | extDeliver hk hx hlive => exact ⟨h, by simp [strands, hk, hlive], by simp [loss, hk, hlive]⟩
  | call | exit | again | permit | park | join => exact ⟨h, rfl, rfl⟩
  | start hd hpc | compute hd hpc | number hd hpc | startedDone hd hpc | handled hd hpc
  | emit hd hpc | count hd hpc | undo hd hpc | receive hd hpc =>
    exact ⟨h.task _ rfl rfl rfl, rfl, by simp [loss, hpc]⟩

/-! ## Shared facts of a run -/

/-- What holds in every reachable state. -/
structure Sound (sys : Topology ι τ α σ) (s : Config ι τ α σ) : Prop where
  addressed : Addressed sys s
  issued : Issued s
  /-- Every `send_external` ended before `run_until_quiescent` was called. -/
  called : s.runner ≠ .building → s.external = []
  /-- A task not polled yet has its initial state. -/
  fresh : ∀ i, (s.tasks i).pc = .spawned → (s.tasks i).state = sys.init i

namespace Sound

omit [DecidableEq ι] [DecidableEq τ] [Fintype ι] in
theorem notifyOne_called (h : s.runner ≠ .building → s.external = []) :
    s.notifyOne.runner ≠ .building → s.notifyOne.external = [] := by
  intro hr
  rw [s.notifyOne_external]
  refine h fun hb => hr ?_
  unfold Config.notifyOne
  rw [if_neg (by rw [hb]; exact Runner.noConfusion)]
  exact hb

omit [DecidableEq τ] [Fintype ι] in
theorem fresh_task (h : ∀ i, (s.tasks i).pc = .spawned → (s.tasks i).state = sys.init i) (i : ι)
    {t : Task ι τ α σ} (ht : t.pc = .spawned → t.state = sys.init i) :
    ∀ j, (Function.update s.tasks i t j).pc = .spawned →
      (Function.update s.tasks i t j).state = sys.init j :=
  (Function.forall_update_iff s.tasks fun j t => t.pc = .spawned → t.state = sys.init j).mpr
    ⟨ht, fun j _ => h j⟩

omit [DecidableEq ι] [DecidableEq τ] in
theorem init (sys : Topology ι τ α σ) : Sound sys (Config.init sys) :=
  ⟨Carries.init sys, .init sys, fun _ => rfl, fun _ _ => rfl⟩

theorem step {l : Label ι α} (h : Sound sys s) (hs : Step sys s l s') : Sound sys s' := by
  have hext : ∀ {k : Nat} {x : External ι τ α}, s.external[k]? = some x → s.runner = .building := by
    intro k x hk
    by_contra hr
    rw [h.called hr] at hk
    cases hk
  refine ⟨h.addressed.step hs, h.issued.step hs, ?_, ?_⟩
  · cases hs with
    | wake | notify => exact notifyOne_called h.called
    | sendExternal hr => exact fun hr' => absurd hr hr'
    | extRecord hk | extCount hk | extDeliver hk | extLost hk =>
      exact fun hr' => absurd (hext hk) hr'
    | call hr hx => exact fun _ => hx
    | exit hr | again hr | permit hr | park hr | join hr =>
      exact fun _ => h.called (by rw [hr]; exact Runner.noConfusion)
    | _ => exact h.called
  · cases hs with
    | sendExternal | extRecord | extCount | extDeliver | extLost | call | exit | again | permit
    | park | join => exact h.fresh
    | @abort i => exact fresh_task h.fresh i (h.fresh i)
    | @panic i | @cancel i => exact fresh_task h.fresh i (h.fresh i)
    | @wake i =>
      rw [s.notifyOne_setPc_tasks i]
      exact fresh_task h.fresh i (by simp)
    | @notify i =>
      rw [s.notifyOne_setPc_tasks i]
      exact fresh_task h.fresh i (by simp)
    | handled | undo =>
      refine fresh_task h.fresh _ ?_
      dsimp only
      split <;> simp
    | _ => exact fresh_task h.fresh _ (by simp)

end Sound

/-- The accounts of a run that dropped nothing. -/
structure Intact (s : Config ι τ α σ) : Prop where
  undropped : Undropped s
  balanced : Balanced s 0
  ledger : Ledger s 0

omit [DecidableEq ι] [DecidableEq τ] in
theorem Intact.init (sys : Topology ι τ α σ) : Intact (Config.init sys) :=
  ⟨fun _ => ⟨rfl, rfl⟩, .init sys, .init sys⟩

theorem Intact.step {l : Label ι α} (h : Intact s) (ha : Addressed sys s) (hr : ¬ s.runner.left)
    (hl : l.quiet) (hs : Step sys s l s') : Intact s' := by
  obtain ⟨hu, hstrands, hloss⟩ := h.undropped.step hr hl hs
  have hb := h.balanced.step hs
  have hled := h.ledger.step ha hs
  rw [hstrands] at hb
  rw [hloss, add_zero] at hled
  exact ⟨hu, hb, hled⟩

omit [Fintype ι] in
/-- The wait loop is left for good. -/
theorem left_step {l : Label ι α} (h : s.runner.left) (hs : Step sys s l s') : s'.runner.left := by
  have hnotify : s.notifyOne.runner.left := by
    unfold Config.notifyOne
    split
    · rename_i hr; rw [hr] at h; exact absurd h id
    · exact h
  cases hs with
  | wake | notify => exact hnotify
  | call hr | again hr | permit hr | park hr => rw [hr] at h; exact absurd h id
  | exit | join => trivial
  | _ => exact h

theorem Run.sound {ls : List (Label ι α)} (h : Run sys ls s) : Sound sys s :=
  Transition.Run.induct (fun hstep hs => Sound.step hs (step_cases sys hstep)) h (.init sys)

theorem Run.intact {ls : List (Label ι α)} (h : Run sys ls s) (hq : ∀ l ∈ ls, l.quiet) :
    s.runner.left ∨ Intact s := by
  refine (Transition.Run.induct_on (P := fun s => Sound sys s ∧ (s.runner.left ∨ Intact s))
    ?_ h hq ⟨.init sys, .inr (.init sys)⟩).2
  intro s₁ l s₂ hl hstep hs
  have hstep := step_cases sys hstep
  refine ⟨hs.1.step hstep, ?_⟩
  rcases hs.2 with hleft | hint
  · exact .inl (left_step hleft hstep)
  · by_cases hr : s₁.runner.left
    · exact .inl (left_step hr hstep)
    · exact .inr (hint.step hs.1.addressed hr hl hstep)

/-! ## Exactness -/

theorem in_flight_exact {ls : List (Label ι α)} (h : Run sys ls s) (hq : ∀ l ∈ ls, l.quiet)
    (hr : ¬ s.runner.left) : s.inFlight = s.queued + s.handling + s.outgoing := by
  have hb := ((h.intact hq).resolve_left hr).balanced
  rwa [Balanced, s.load_counted] at hb

/-- A decrement never finds the counter at zero: no step moves it by more than one. -/
theorem in_flight_step {l : Label ι α} {k : Nat} (hb : Balanced s k) (hs : Step sys s l s') :
    s.inFlight ≤ s'.inFlight + 1 ∧ s'.inFlight ≤ s.inFlight + 1 := by
  cases hs with
  | @handled i hd hpc =>
    have hpos := hb.pos i (by simp [hd, hpc])
    show s.inFlight ≤ s.fetchSub.inFlight + 1 ∧ s.fetchSub.inFlight ≤ s.inFlight + 1
    rw [fetchSub_inFlight hpos]
    omega
  | @undo i phase rest addr env hd hpc =>
    have hpos := hb.pos i (by simp [hd, hpc])
    show s.inFlight ≤ s.fetchSub.inFlight + 1 ∧ s.fetchSub.inFlight ≤ s.inFlight + 1
    rw [fetchSub_inFlight hpos]
    omega
  | count => exact ⟨Nat.le_add_right _ 2, Nat.le_refl _⟩
  | extCount => exact ⟨Nat.le_add_right _ 2, Nat.le_refl _⟩
  | wake | notify =>
    show s.inFlight ≤ s.notifyOne.inFlight + 1 ∧ s.notifyOne.inFlight ≤ s.inFlight + 1
    rw [s.notifyOne_inFlight]
    omega
  | _ => exact ⟨Nat.le_succ _, Nat.le_succ _⟩

/-! ## Fully received logs -/

/-- Each recorded emit has exactly one recorded recv with its msg_id, src and dst, and no recv is
without an emit. -/
structure FullyReceived (events : List CausalEvent) : Prop where
  emits : ∀ e ∈ events, e.op = .emit →
    events.countP (fun r => r.op = .recv ∧ messageKey r = messageKey e) = 1
  recvs : ∀ r ∈ events, r.op = .recv → ∃ e ∈ events, e.op = .emit ∧ messageKey e = messageKey r

theorem count_recordedKeys (op : Op) (events : List CausalEvent) (k : Key) :
    (recordedKeys op events).count k =
      events.countP (fun e => e.op = op ∧ messageKey e = k) := by
  unfold recordedKeys
  rw [Multiset.count, Multiset.coe_countP, List.countP_map, List.countP_filter]
  refine List.countP_congr fun e _ => ?_
  simp [and_comm, eq_comm (a := k)]

omit [DecidableEq ι] [DecidableEq τ] in
theorem Issued.fullyReceived (h : Issued s)
    (hm : recordedKeys .emit s.events = recordedKeys .recv s.events) :
    FullyReceived s.events where
  emits := by
    intro e he hop
    have hnd : (recordedKeys .emit s.events).Nodup := by
      have := h.emits_nodup
      refine Multiset.coe_nodup.mpr (List.Nodup.of_map Prod.fst ?_)
      rwa [List.map_map]
    have hmem : messageKey e ∈ recordedKeys .emit s.events :=
      Multiset.mem_coe.mpr (List.mem_map.mpr ⟨e, List.mem_filter.mpr ⟨he, by simpa using hop⟩, rfl⟩)
    rw [← count_recordedKeys, ← hm]
    exact Multiset.count_eq_one_of_mem hnd hmem
  recvs := by
    intro r hr hop
    have hmem : messageKey r ∈ recordedKeys .recv s.events :=
      Multiset.mem_coe.mpr (List.mem_map.mpr ⟨r, List.mem_filter.mpr ⟨hr, by simpa using hop⟩, rfl⟩)
    rw [← hm] at hmem
    obtain ⟨e, he, hkey⟩ := List.mem_map.mp (Multiset.mem_coe.mp hmem)
    obtain ⟨he, heop⟩ := List.mem_filter.mp he
    exact ⟨e, he, by simpa using heop, hkey⟩

/-! ## A zero that is final -/

/-- Nothing is on its way and no task can still send. -/
structure Still (sys : Topology ι τ α σ) (s : Config ι τ α σ) : Prop where
  idle : ∀ i, (s.tasks i).pc.still
  silent : ∀ i, (s.tasks i).pc = .spawned →
    ∀ a ∈ ((sys.actor i).started (s.tasks i).state).2, a = .compute
  mailbox : ∀ i, s.mailbox i = []
  external : s.external = []
  called : s.runner ≠ .building
  zero : s.inFlight = 0
  matched : recordedKeys .emit s.events = recordedKeys .recv s.events

namespace Still

omit [DecidableEq τ] [Fintype ι] in
theorem task (h : Still sys s) (i : ι) {t : Task ι τ α σ}
    (htasks : s'.tasks = Function.update s.tasks i t) (hmail : s'.mailbox = s.mailbox)
    (hext : s'.external = s.external) (hr : s'.runner ≠ .building) (hin : s'.inFlight = s.inFlight)
    (hev : recordedKeys .emit s'.events = recordedKeys .recv s'.events) (ht : t.pc.still)
    (hsil : t.pc = .spawned → ∀ a ∈ ((sys.actor i).started t.state).2, a = .compute) :
    Still sys s' where
  idle := by
    rw [htasks]
    exact (Function.forall_update_iff s.tasks fun _ t => t.pc.still).mpr ⟨ht, fun j _ => h.idle j⟩
  silent := by
    rw [htasks]
    exact (Function.forall_update_iff s.tasks fun j t =>
      t.pc = .spawned → ∀ a ∈ ((sys.actor j).started t.state).2, a = .compute).mpr
        ⟨hsil, fun j _ => h.silent j⟩
  mailbox := by rw [hmail]; exact h.mailbox
  external := by rw [hext]; exact h.external
  called := hr
  zero := by rw [hin]; exact h.zero
  matched := hev

omit [DecidableEq τ] [Fintype ι] in
theorem drop (h : Still sys s) (i : ι) : Still sys (s.drop i) := by
  have htask : Still sys (s.setTask i { s.tasks i with dropped := true }) :=
    h.task i rfl rfl rfl h.called rfl h.matched (h.idle i) (h.silent i)
  refine { htask with mailbox := fun j => ?_ }
  by_cases hij : j = i
  · subst hij; exact Function.update_self ..
  · exact (Function.update_of_ne hij ..).trans (h.mailbox j)

omit [DecidableEq ι] [DecidableEq τ] [Fintype ι] in
theorem runner (h : Still sys s) {r : Runner} (hr : r ≠ .building) (b : Bool) :
    Still sys { s with runner := r, permit := b } :=
  ⟨h.idle, h.silent, h.mailbox, h.external, hr, h.zero, h.matched⟩

omit [DecidableEq ι] [DecidableEq τ] [Fintype ι] in
theorem notifyOne (h : Still sys s) : Still sys s.notifyOne := by
  unfold Config.notifyOne
  split
  · exact h.runner Runner.noConfusion s.permit
  · exact h.runner h.called true

omit [Fintype ι] in
/-- **Quiescence is final**, whatever step is taken. -/
theorem step {l : Label ι α} (h : Still sys s) (hs : Step sys s l s') : Still sys s' := by
  have hpc : ∀ {i pc}, (s.tasks i).pc = pc → pc.still := fun hpc => hpc ▸ h.idle _
  have hext : ∀ {k : Nat} {x : External ι τ α}, s.external[k]? ≠ some x := by
    intro k x hk
    rw [h.external] at hk
    cases hk
  cases hs with
  | start hd hpc' _ =>
    exact h.task _ rfl rfl rfl h.called rfl h.matched (h.silent _ hpc') (by simp)
  | @compute i phase rest hd hpc' =>
    cases phase with
    | handling => exact absurd (hpc hpc') id
    | started =>
      have hrest : ∀ a ∈ Action.compute :: rest, a = .compute := hpc hpc'
      refine h.task i rfl rfl rfl h.called rfl ?_
        (fun a ha => hrest a (List.mem_cons_of_mem _ ha)) (by simp)
      simpa [Config.setTask, Config.record, recordedKeys_snoc] using h.matched
  | @number i phase rest addr msg hd hpc' =>
    cases phase with
    | handling => exact absurd (hpc hpc') id
    | started =>
      have hrest : ∀ a ∈ Action.send addr msg :: rest, a = .compute := hpc hpc'
      cases hrest _ (List.mem_cons_self ..)
  | startedDone => exact h.task _ rfl rfl rfl h.called rfl h.matched trivial (by simp)
  | handled hd hpc' | emit hd hpc' | count hd hpc' | deliver hd hpc' | bounce hd hpc'
  | undo hd hpc' | wake hd hpc' | receive hd hpc' => exact absurd (hpc hpc') id
  | dequeue hd hpc' hq => rw [h.mailbox] at hq; cases hq
  | @notify i =>
    exact h.notifyOne.task i rfl rfl rfl h.notifyOne.called rfl h.notifyOne.matched trivial
      (by simp)
  | panic | cancel => exact h.drop _
  | @abort i =>
    exact h.task i rfl rfl rfl h.called rfl h.matched (h.idle i) (h.silent i)
  | sendExternal hr => exact absurd hr h.called
  | extRecord hk | extCount hk | extDeliver hk | extLost hk => exact absurd hk hext
  | call hr => exact absurd hr h.called
  | exit | again | permit | park | join => exact h.runner Runner.noConfusion _

omit [DecidableEq ι] [DecidableEq τ] in
/-- A zero of the counter, where no `started` sends any more. -/
theorem of_zero (hs : Sound sys s) (hi : Intact s) (hr : s.runner ≠ .building)
    (h0 : s.inFlight = 0) (hpc : ∀ i, (s.tasks i).pc.silent)
    (hsil : ∀ i, (s.tasks i).pc = .spawned →
      ∀ a ∈ ((sys.actor i).started (s.tasks i).state).2, a = .compute) : Still sys s := by
  have hload : s.queued + s.handling + s.outgoing = 0 := by
    rw [← s.load_counted]
    have := hi.balanced
    unfold Balanced at this
    omega
  have hmail : ∀ i, s.mailbox i = [] := by
    intro i
    have h : s.queued = 0 := by omega
    exact List.length_eq_zero_iff.mp (Finset.sum_eq_zero_iff.mp h i (Finset.mem_univ i))
  have hidle : ∀ i, (s.tasks i).pc.still := by
    intro i
    have h : s.handling = 0 := by omega
    have hi' := Finset.sum_eq_zero_iff.mp h i (Finset.mem_univ i)
    rw [Task.handling, (hi.undropped i).2] at hi'
    exact (hpc i).still hi'
  refine ⟨hidle, hsil, hmail, hs.called hr, hr, h0, ?_⟩
  have h1 : total (carried ι τ α σ).task s.tasks = 0 := total_eq_zero fun i => by
    simp only [Prod.carried, (hidle i).carried, ite_self]
  have h2 : total (carried ι τ α σ).mail s.mailbox = 0 := total_eq_zero fun i => by
    rw [hmail i]; rfl
  have hled := hi.ledger
  rw [Ledger, Config.load, h1, h2, hs.called hr] at hled
  simpa using hled

theorem run {ls : List (Label ι α)} (h : Still sys s)
    (hr : Transition.Run (Prod.step sys) s ls s') : Still sys s' :=
  Transition.Run.induct (fun hstep hs => Still.step hs (step_cases sys hstep)) hr h

end Still

/-- No message is queued, in delivery or being handled, no send is in progress, and the log is
fully received. -/
structure Quiescent (s : Config ι τ α σ) : Prop where
  queued : s.queued = 0
  handling : s.handling = 0
  outgoing : s.outgoing = 0
  inSend : ∀ i, (s.tasks i).pc.inSend = false
  external : s.external = []
  received : FullyReceived s.events

omit [DecidableEq ι] [DecidableEq τ] in
theorem Still.quiescent (h : Still sys s) (hi : Issued s) : Quiescent s where
  queued := total_eq_zero fun i => by rw [h.mailbox i]; rfl
  handling := total_eq_zero fun i => by simp only [Task.handling, (h.idle i).handling, ite_self]
  outgoing := by
    have h0 : total Task.outgoing s.tasks = 0 := total_eq_zero fun i => by
      simp only [Task.outgoing, (h.idle i).outgoing, ite_self]
    rw [Config.outgoing, h0, h.external]
    rfl
  inSend := fun i => (h.idle i).inSend
  external := h.external
  received := hi.fullyReceived h.matched

/-! ## Actors whose `started` sends nothing -/

/-- A `started` that only computes. -/
def SilentStart (sys : Topology ι τ α σ) : Prop :=
  ∀ i, ∀ a ∈ ((sys.actor i).started (sys.init i)).2, a = .compute

omit [DecidableEq τ] [Fintype ι] in
theorem silent_task (h : ∀ i, (s.tasks i).pc.silent) (i : ι) {t : Task ι τ α σ}
    (ht : t.pc.silent) : ∀ j, (Function.update s.tasks i t j).pc.silent :=
  (Function.forall_update_iff s.tasks fun _ t => t.pc.silent).mpr ⟨ht, fun j _ => h j⟩

theorem silent_step {l : Label ι α} (hsil : SilentStart sys) (hs : Sound sys s)
    (h : ∀ i, (s.tasks i).pc.silent) (hstep : Step sys s l s') : ∀ i, (s'.tasks i).pc.silent := by
  have hpc : ∀ {i pc}, (s.tasks i).pc = pc → pc.silent := fun hpc => hpc ▸ h _
  cases hstep with
  | @start i hd hpc' _ =>
    refine silent_task h i ?_
    show ∀ a ∈ ((sys.actor i).started (s.tasks i).state).2, a = .compute
    rw [hs.fresh i hpc']
    exact hsil i
  | @compute i phase rest hd hpc' =>
    refine silent_task h i ?_
    cases phase with
    | started =>
      have hrest : ∀ a ∈ Action.compute :: rest, a = .compute := hpc hpc'
      exact fun a ha => hrest a (List.mem_cons_of_mem _ ha)
    | handling => trivial
  | @number i phase rest addr msg hd hpc' =>
    refine silent_task h i ?_
    cases phase with
    | started =>
      have hrest : ∀ a ∈ Action.send addr msg :: rest, a = .compute := hpc hpc'
      cases hrest _ (List.mem_cons_self ..)
    | handling => trivial
  | startedDone => exact silent_task h _ trivial
  | handled =>
    refine silent_task h _ ?_
    dsimp only
    split <;> trivial
  | @emit i phase rest addr msg m hd hpc' | @count i phase rest addr env hd hpc'
  | @deliver i phase rest addr env hd hpc' hlive | @bounce i phase rest addr env hd hpc' hgone =>
    refine silent_task h i ?_
    cases phase with
    | started => exact absurd (hpc hpc') id
    | handling => trivial
  | @undo i phase rest addr env hd hpc' =>
    refine silent_task h i ?_
    cases phase with
    | started => exact absurd (hpc hpc') id
    | handling => dsimp only; split <;> trivial
  | @wake i phase rest addr env hd hpc' =>
    rw [s.notifyOne_setPc_tasks i]
    refine silent_task h i ?_
    cases phase with
    | started => exact absurd (hpc hpc') id
    | handling => trivial
  | dequeue | receive => exact silent_task h _ trivial
  | @notify i => rw [s.notifyOne_setPc_tasks i]; exact silent_task h i trivial
  | @panic i | @abort i | @cancel i => exact silent_task h i (h i)
  | sendExternal | extRecord | extCount | extDeliver | extLost | call | exit | again | permit
  | park | join => exact h

/-- **In-flight accounting is exact and zero means quiescent.**  In a run without a panic,
`in_flight` is, until the wait loop is left, the number of messages queued, handled or counted and
not yet enqueued; no step moves it by more than one, so it never wraps; and where no `started`
sends, a zero read by `run_until_quiescent` is quiescent, there and in whatever follows. -/
theorem zero_is_quiescent {ls : List (Label ι α)} (h : Run sys ls s) (hq : ∀ l ∈ ls, l.quiet) :
    (¬ s.runner.left → s.inFlight = s.queued + s.handling + s.outgoing) ∧
    (∀ l s', step sys s l = some s' →
      s.inFlight ≤ s'.inFlight + 1 ∧ s'.inFlight ≤ s.inFlight + 1) ∧
    (SilentStart sys → s.runner = .polling → s.inFlight = 0 →
      ∀ ls' s', Transition.Run (step sys) s ls' s' → Quiescent s') := by
  refine ⟨in_flight_exact h hq, fun l s' hstep =>
    in_flight_step h.balanced.1 (step_cases sys hstep), fun hsil hr h0 ls' s' hr' => ?_⟩
  have hleft : ¬ s.runner.left := by rw [hr]; exact id
  have hpc : ∀ i, (s.tasks i).pc.silent :=
    (Transition.Run.induct (P := fun s => Sound sys s ∧ ∀ i, (s.tasks i).pc.silent)
      (fun hstep hs => ⟨hs.1.step (step_cases sys hstep),
        silent_step hsil hs.1 hs.2 (step_cases sys hstep)⟩) h ⟨.init sys, fun _ => trivial⟩).2
  have hstill : Still sys s := by
    refine .of_zero h.sound ((h.intact hq).resolve_left hleft) (by rw [hr]; simp) h0 hpc ?_
    intro i hi
    rw [h.sound.fresh i hi]
    exact hsil i
  have hrun : Run sys (ls ++ ls') s' := Run.append_iff.mpr ⟨s, h, hr'⟩
  exact (hstill.run hr').quiescent hrun.sound.issued

/-- The lone actor gets an origin and handles it before `run_until_quiescent` is called. -/
def servedRun : List (Label Unit Nat) :=
  [.task (), .task (), .sendExternal () 7, .external 0, .external 0, .external 0, .task (),
    .task (), .task (), .task (), .runner]

theorem zero_is_quiescent_lone : ∃ s, Run lone servedRun s ∧ s.events.length = 2 ∧ Quiescent s := by
  obtain ⟨s, hrun, hr, h0, hlen⟩ : ∃ s, Run lone servedRun s ∧ s.runner = .polling ∧
      s.inFlight = 0 ∧ s.events.length = 2 := ⟨_, rfl, rfl, rfl, rfl⟩
  refine ⟨s, hrun, hlen, (zero_is_quiescent hrun ?_).2.2 ?_ hr h0 [] s (.nil s)⟩
  · intro l hl
    simp only [servedRun, List.mem_cons, List.not_mem_nil, or_false] at hl
    rcases hl with rfl | rfl | rfl | rfl | rfl | rfl | rfl | rfl | rfl | rfl | rfl <;> trivial
  · intro i a ha
    cases ha

/-! ## Actors whose `started` sends -/

omit [DecidableEq τ] [Fintype ι] in
theorem begun_task (h : ∀ i, (s.tasks i).pc.begun) (i : ι) {t : Task ι τ α σ} (ht : t.pc.begun) :
    ∀ j, (Function.update s.tasks i t j).pc.begun :=
  (Function.forall_update_iff s.tasks fun _ t => t.pc.begun).mpr ⟨ht, fun j _ => h j⟩

omit [Fintype ι] in
theorem begun_step {l : Label ι α} (h : ∀ i, (s.tasks i).pc.begun) (hstep : Step sys s l s')
    (hstill : Still sys s) : ∀ i, (s'.tasks i).pc.begun := by
  have hpc : ∀ {i pc}, (s.tasks i).pc = pc → pc.begun ∧ pc.still := fun hpc =>
    hpc ▸ ⟨h _, hstill.idle _⟩
  cases hstep with
  | start hd hpc' => exact absurd (hpc hpc').1 id
  | @compute i phase _ hd hpc' =>
    cases phase with
    | started => exact absurd (hpc hpc').1 id
    | handling => exact absurd (hpc hpc').2 id
  | @number i phase _ _ _ hd hpc' =>
    cases phase with
    | started => exact absurd (hpc hpc').1 id
    | handling => exact absurd (hpc hpc').2 id
  | handled hd hpc' | emit hd hpc' | count hd hpc' | deliver hd hpc' | bounce hd hpc'
  | undo hd hpc' | wake hd hpc' | receive hd hpc' => exact absurd (hpc hpc').2 id
  | startedDone | dequeue => exact begun_task h _ trivial
  | @notify i => rw [s.notifyOne_setPc_tasks i]; exact begun_task h i trivial
  | @panic i | @abort i | @cancel i => exact begun_task h i (h i)
  | sendExternal | extRecord | extCount | extDeliver | extLost | call | exit | again | permit
  | park | join => exact h

/-- Every `started` has completed and every message sent was received and handled. -/
structure Settled (s : Config ι τ α σ) : Prop where
  begun : ∀ i, (s.tasks i).pc.begun
  quiescent : Quiescent s

/-- The runner reads zero only once every `started` has completed. -/
def AwaitsStarted (s : Config ι τ α σ) (l : Label ι α) : Prop :=
  l = .runner → s.runner = .polling → s.inFlight = 0 → ∀ i, (s.tasks i).pc.begun

omit [Fintype ι] in
/-- The wait loop is left by reading zero. -/
theorem exit_of_left {l : Label ι α} (hr : ¬ s.runner.left) (hr' : s'.runner.left)
    (hs : Step sys s l s') : l = .runner ∧ s.runner = .polling ∧ s.inFlight = 0 ∧
      s' = { s with runner := .exited } := by
  cases hs with
  | exit hr h0 => exact ⟨rfl, hr, h0, rfl⟩
  | join hr'' => rw [hr''] at hr; exact absurd trivial hr
  | wake | notify => exact absurd hr' (notifyOne_runner hr)
  | call | again | permit | park => exact absurd hr' id
  | _ => exact absurd hr' hr

/-- In a run without a panic whose exits wait for every `started`, nothing is under way once the
wait loop is left. -/
theorem still_of_run {ls : List (Label ι α)} (h : Run sys ls s)
    (hok : Along (step sys) (fun s l => l.quiet ∧ AwaitsStarted s l) ls (.init sys)) :
    s.runner.left → Still sys s ∧ ∀ i, (s.tasks i).pc.begun := by
  refine (Transition.Run.induct_along (P := fun s => Sound sys s ∧
    (¬ s.runner.left → Intact s) ∧ (s.runner.left → Still sys s ∧ ∀ i, (s.tasks i).pc.begun))
      ?_ h hok ⟨.init sys, fun _ => .init sys, fun h => absurd h id⟩).2.2
  rintro s l s' ⟨hl, hexit⟩ hstep ⟨hs, hint, hstill⟩
  have hstep := step_cases sys hstep
  refine ⟨hs.step hstep, fun hr' => ?_, fun hr' => ?_⟩
  · have hr : ¬ s.runner.left := fun hr => hr' (left_step hr hstep)
    exact (hint hr).step hs.addressed hr hl hstep
  · by_cases hr : s.runner.left
    · have hs' := hstill hr
      exact ⟨hs'.1.step hstep, begun_step hs'.2 hstep hs'.1⟩
    · -- the exit: every `started` has completed, so the zero is final
      obtain ⟨rfl, hpoll, h0, rfl⟩ := exit_of_left hr hr' hstep
      have hbegun := hexit rfl hpoll h0
      have hzero : Still sys s := .of_zero hs (hint hr) (by rw [hpoll]; simp) h0
        (fun i => (hbegun i).silent) fun i hi => by
          have := hbegun i
          rw [hi] at this
          exact absurd this id
      exact ⟨hzero.step hstep, hbegun⟩

/-- **Shutdown does not overtake start-up exactly where the exit waits for it.**  In a run without
a panic, every `started` has completed and every message was received and handled in each state
past the wait loop, if and only if each zero that ends the loop is read when every `started` has
completed. -/
theorem settled_iff {ls : List (Label ι α)} (hq : ∀ l ∈ ls, l.quiet) :
    (∀ pre s, pre <+: ls → Run sys pre s → s.runner.left → Settled s) ↔
      Along (step sys) AwaitsStarted ls (.init sys) := by
  constructor
  · rintro h pre l post s heq hpre rfl hpoll h0
    -- the state the exit leads to has the same tasks
    have hexit : step sys s .runner = some { s with runner := .exited } := by
      simp only [step, stepRunner, hpoll, h0, if_true]
    have hrun : Run sys (pre ++ [.runner]) { s with runner := .exited } :=
      Run.append_iff.mpr ⟨s, hpre, .cons hexit (.nil _)⟩
    exact (h _ _ ⟨post, by rw [heq]; simp⟩ hrun trivial).begun
  · rintro h pre s ⟨rest, rfl⟩ hpre hleft
    have hok : Along (step sys) (fun s l => l.quiet ∧ AwaitsStarted s l) pre (.init sys) := by
      rintro p l post s₁ rfl hp
      refine ⟨hq l (by simp), h p l (post ++ rest) s₁ (by simp) hp⟩
    obtain ⟨hstill, hbegun⟩ := still_of_run hpre hok hleft
    exact ⟨hbegun, hstill.quiescent hpre.sound.issued⟩

/-! ## A run whose exit overtakes a `started` -/

/-- `true` sends to `false` when it starts. -/
def herald : Topology Bool Unit Nat Unit where
  name i := if i then "herald" else "sink"
  actor i := ⟨(), fun s => (s, if i then [.send false 1] else []), fun s _ => (s, [])⟩
  init _ := ()

/-- The sink waits, and `run_until_quiescent` reads zero before the herald is polled; then the
herald starts and the sink is aborted. -/
def overtakingRun : List (Label Bool Nat) :=
  [.task false, .task false, .runner, .runner, .task true, .task true, .task true, .abort false,
    .cancel false, .task true, .task true, .task true, .task true, .task true, .abort true,
    .cancel true, .runner]

theorem overtakingRun_quiet : ∀ l ∈ overtakingRun, l.quiet := by
  intro l hl
  simp only [overtakingRun, List.mem_cons, List.not_mem_nil, or_false] at hl
  rcases hl with rfl | rfl | rfl | rfl | rfl | rfl | rfl | rfl | rfl | rfl | rfl | rfl | rfl | rfl |
    rfl | rfl | rfl <;> trivial

/-- The one recorded event is an emit. -/
theorem overtakingRun_end : ∃ s, Run herald overtakingRun s ∧ s.runner.left ∧ ¬ Settled s := by
  refine ⟨_, rfl, trivial, fun h => ?_⟩
  have hemits := h.quiescent.received.emits _ (List.mem_cons_self ..) rfl
  revert hemits
  decide

/-- The log ends with an emit that nobody receives. -/
theorem exit_overtakes_started : ¬ ∀ ls (s : Config Bool Unit Nat Unit), (∀ l ∈ ls, l.quiet) →
    Run herald ls s → s.runner.left → Settled s := by
  intro h
  obtain ⟨s, hrun, hleft, hnot⟩ := overtakingRun_end
  exact hnot (h _ s overtakingRun_quiet hrun hleft)

/-- The herald starts, and the sink receives its message. -/
def heraldRun : List (Label Bool Nat) :=
  List.replicate 6 (.task true) ++ List.replicate 6 (.task false)

/-- Then the counter is read. -/
def awaitingRun : List (Label Bool Nat) := heraldRun ++ [.runner, .runner]

theorem awaitingRun_awaits : Along (step herald) AwaitsStarted awaitingRun (.init herald) := by
  obtain ⟨s, s', hrun, hstep, hbuilding, hbegun, hlast⟩ : ∃ s s', Run herald heraldRun s ∧
      step herald s .runner = some s' ∧ s.runner = .building ∧ (∀ i, (s'.tasks i).pc.begun) ∧
      (step herald s' .runner).isSome = true :=
    ⟨_, _, rfl, rfl, rfl, fun i => by cases i <;> trivial, rfl⟩
  obtain ⟨s'', hstep'⟩ := Option.isSome_iff_exists.mp hlast
  refine Run.along_append hrun (fun pre l post s₁ heq _ hl => ?_)
    ((Run.along_cons hstep).mpr ⟨fun _ hpoll => ?_,
      (Run.along_cons hstep').mpr ⟨fun _ _ _ => hbegun, ?_⟩⟩)
  · have hmem : l ∈ heraldRun := by rw [heq]; simp
    rw [hl] at hmem
    simp [heraldRun] at hmem
  · rw [hbuilding] at hpoll
    cases hpoll
  · intro pre l post s₁ heq
    simp at heq

/-- The exit of the one run overtakes the herald, that of the other finds its message handled. -/
theorem settled_iff_herald : ¬ Along (step herald) AwaitsStarted overtakingRun (.init herald) ∧
    ∃ s, Run herald awaitingRun s ∧ s.runner.left ∧ s.events.length = 2 ∧ Settled s := by
  constructor
  · obtain ⟨s, hrun, hleft, hnot⟩ := overtakingRun_end
    intro h
    exact hnot ((settled_iff overtakingRun_quiet).mpr h _ s (List.prefix_refl _) hrun hleft)
  · obtain ⟨s, hrun, hleft, hlen⟩ : ∃ s, Run herald awaitingRun s ∧ s.runner.left ∧
        s.events.length = 2 := ⟨_, rfl, trivial, rfl⟩
    have hquiet : ∀ l ∈ awaitingRun, l.quiet := by
      intro l hl
      simp only [awaitingRun, heraldRun, List.mem_append, List.mem_replicate, List.mem_cons,
        List.not_mem_nil, or_false] at hl
      rcases hl with (⟨-, rfl⟩ | ⟨-, rfl⟩) | rfl | rfl <;> trivial
    exact ⟨s, hrun, hleft, hlen,
      (settled_iff hquiet).mpr awaitingRun_awaits _ s (List.prefix_refl _) hrun hleft⟩

end Lichtung.Prod
