import Lichtung.Prod.System

/-!
# In-flight accounting

The counter of `SharedRuntime` against the messages of the system.  `Balanced s k` says that
`in_flight` is the number of queued messages, plus the dequeued ones whose `dec_in_flight` has not
run, plus the ones counted and not yet enqueued, plus `k`: the messages whose count nobody will
undo any more.  `strands` is what one step adds to `k`.

Principal results: `Balanced.step`, `balanced_of_run` (the account over a whole run) and
`Wakeful.step` (the runner is never parked at zero without a wake-up on its way).
-/

namespace Lichtung.Prod

open Transition

/-! ## Loads

What the parts of a state carry, added up.  `Weights` says what one task, one mailbox and one
`send_external` in progress count for. -/

variable {ι τ α σ : Type}

structure Weights (ι τ α σ M : Type) where
  task : Task ι τ α σ → M
  mail : List (Envelope τ α) → M
  ext : External ι τ α → M

section Load

variable {M : Type} [AddCommMonoid M] (w : Weights ι τ α σ M) {s s' : Config ι τ α σ}

def Config.load [Fintype ι] (s : Config ι τ α σ) : M :=
  total w.task s.tasks + total w.mail s.mailbox + (s.external.map w.ext).sum

variable [Fintype ι] [DecidableEq ι]

/-- A step of one task and one mailbox. -/
theorem load_taskMail (i j : ι) {t : Task ι τ α σ} {q : List (Envelope τ α)}
    (htasks : s'.tasks = Function.update s.tasks i t)
    (hmail : s'.mailbox = Function.update s.mailbox j q) (hext : s'.external = s.external) :
    s'.load w + (w.task (s.tasks i) + w.mail (s.mailbox j)) =
      s.load w + (w.task t + w.mail q) := by
  obtain ⟨r₁, h1, h1'⟩ := total_split w.task s.tasks i
  obtain ⟨r₂, h2, h2'⟩ := total_split w.mail s.mailbox j
  simp only [Config.load, htasks, hmail, hext, h1, h1', h2, h2']
  abel

/-- A step of one task that leaves the mailboxes alone. -/
theorem load_task (i : ι) {t : Task ι τ α σ} (htasks : s'.tasks = Function.update s.tasks i t)
    (hmail : s'.mailbox = s.mailbox) (hext : s'.external = s.external) :
    s'.load w + w.task (s.tasks i) = s.load w + w.task t := by
  obtain ⟨r, h, h'⟩ := total_split w.task s.tasks i
  simp only [Config.load, htasks, hmail, hext, h, h']
  abel

omit [Fintype ι] [DecidableEq ι] in
theorem sum_ext_set {x : External ι τ α} (y : External ι τ α) :
    ∀ {l : List (External ι τ α)} {k : Nat}, l[k]? = some x →
      ((l.set k y).map w.ext).sum + w.ext x = (l.map w.ext).sum + w.ext y
  | [], _, h => by simp at h
  | z :: l, 0, h => by
    obtain rfl : z = x := by simpa using h
    simp only [List.set_cons_zero, List.map_cons, List.sum_cons]
    abel
  | z :: l, k + 1, h => by
    have := sum_ext_set y (l := l) (k := k) (by simpa using h)
    simp only [List.set_cons_succ, List.map_cons, List.sum_cons]
    rw [add_assoc, this, add_assoc]

omit [Fintype ι] [DecidableEq ι] in
theorem sum_ext_erase {x : External ι τ α} : ∀ {l : List (External ι τ α)} {k : Nat},
    l[k]? = some x → ((l.eraseIdx k).map w.ext).sum + w.ext x = (l.map w.ext).sum
  | [], _, h => by simp at h
  | z :: l, 0, h => by
    obtain rfl : z = x := by simpa using h
    simp only [List.eraseIdx_cons_zero, List.map_cons, List.sum_cons]
    abel
  | z :: l, k + 1, h => by
    have := sum_ext_erase (l := l) (k := k) (by simpa using h)
    simp only [List.eraseIdx_cons_succ, List.map_cons, List.sum_cons]
    rw [add_assoc, this]

omit [DecidableEq ι] in
/-- A new `send_external`. -/
theorem load_ext_snoc {x : External ι τ α} (htasks : s'.tasks = s.tasks)
    (hmail : s'.mailbox = s.mailbox) (hext : s'.external = s.external ++ [x]) :
    s'.load w + 0 = s.load w + w.ext x := by
  simp only [Config.load, htasks, hmail, hext, List.map_append, List.map_cons, List.map_nil,
    List.sum_append, List.sum_cons, List.sum_nil]
  abel

omit [DecidableEq ι] in
/-- A `send_external` moves on. -/
theorem load_ext_set {k : Nat} {x y : External ι τ α} (hk : s.external[k]? = some x)
    (htasks : s'.tasks = s.tasks) (hmail : s'.mailbox = s.mailbox)
    (hext : s'.external = s.external.set k y) : s'.load w + w.ext x = s.load w + w.ext y := by
  simp only [Config.load, htasks, hmail, hext, add_assoc, sum_ext_set w y hk]

omit [DecidableEq ι] in
/-- A `send_external` ends. -/
theorem load_ext_erase {k : Nat} {x : External ι τ α} (hk : s.external[k]? = some x)
    (htasks : s'.tasks = s.tasks) (hmail : s'.mailbox = s.mailbox)
    (hext : s'.external = s.external.eraseIdx k) : s'.load w + w.ext x = s.load w + 0 := by
  simp only [Config.load, htasks, hmail, hext, add_assoc, sum_ext_erase w hk, add_zero]

/-- A `send_external` ends with its delivery. -/
theorem load_ext_mail {k : Nat} {x : External ι τ α} (j : ι) {q : List (Envelope τ α)}
    (hk : s.external[k]? = some x) (htasks : s'.tasks = s.tasks)
    (hmail : s'.mailbox = Function.update s.mailbox j q)
    (hext : s'.external = s.external.eraseIdx k) :
    s'.load w + (w.mail (s.mailbox j) + w.ext x) = s.load w + w.mail q := by
  obtain ⟨r, h, h'⟩ := total_split w.mail s.mailbox j
  simp only [Config.load, htasks, hmail, hext, h, h', ← sum_ext_erase w hk]
  abel

end Load

/-! ## The account -/

/-- Dequeued by this task, `dec_in_flight` still to come. -/
@[simp] def Pc.handling : Pc ι τ α → Nat
  | .body .handling _ | .numbered .handling _ _ _ _ | .sending .handling _ _ _ _ | .received _ => 1
  | _ => 0

/-- Counted by this task, not yet enqueued. -/
@[simp] def Pc.outgoing : Pc ι τ α → Nat
  | .sending _ _ .deliver _ _ | .sending _ _ .undo _ _ => 1
  | _ => 0

@[simp] def Task.handling (t : Task ι τ α σ) : Nat := if t.dropped then 0 else t.pc.handling

@[simp] def Task.outgoing (t : Task ι τ α σ) : Nat := if t.dropped then 0 else t.pc.outgoing

@[simp] def External.outgoing (x : External ι τ α) : Nat := if x.stage = .deliver then 1 else 0

/-- The messages counted by `in_flight`. -/
def counted (ι τ α σ : Type) : Weights ι τ α σ Nat where
  task t := t.handling + t.outgoing
  mail := List.length
  ext := External.outgoing

variable [Fintype ι]

namespace Config

/-- Messages sitting in mailboxes. -/
def queued (s : Config ι τ α σ) : Nat := total List.length s.mailbox

/-- Messages dequeued whose `dec_in_flight` has not run yet. -/
def handling (s : Config ι τ α σ) : Nat := total Task.handling s.tasks

/-- Messages past `inc_in_flight` and not yet enqueued. -/
def outgoing (s : Config ι τ α σ) : Nat :=
  total Task.outgoing s.tasks + (s.external.map External.outgoing).sum

theorem load_counted (s : Config ι τ α σ) :
    s.load (counted ι τ α σ) = s.queued + s.handling + s.outgoing := by
  have h : total (counted ι τ α σ).task s.tasks =
      s.handling + total Task.outgoing s.tasks := Finset.sum_add_distrib
  simp only [load, h, queued, outgoing]
  simp only [counted]
  omega

end Config

/-- `in_flight` counts the messages on their way and `k` more. -/
def Balanced (s : Config ι τ α σ) (k : Nat) : Prop := s.inFlight = s.load (counted ι τ α σ) + k

variable [DecidableEq ι] [DecidableEq τ] {sys : Topology ι τ α σ} {s s' : Config ι τ α σ}

/-- The messages a step leaves counted for good: those of a task that ends, and one that
`send_external` delivers to a closed mailbox. -/
def strands (s : Config ι τ α σ) : Label ι α → Nat
  | .panic i | .cancel i => (s.tasks i).pc.handling + (s.mailbox i).length
  | .external k =>
    match s.external[k]? with
    | some x => if x.stage = .deliver ∧ (s.tasks x.addr).dropped then 1 else 0
    | none => 0
  | _ => 0

omit [Fintype ι] [DecidableEq ι] [DecidableEq τ] in
@[simp] theorem strands_task (i : ι) : strands s (.task i) = 0 := rfl

omit [Fintype ι] [DecidableEq ι] [DecidableEq τ] in
@[simp] theorem strands_abort (i : ι) : strands s (.abort i) = 0 := rfl

omit [Fintype ι] [DecidableEq ι] [DecidableEq τ] in
theorem fetchSub_inFlight (h : 0 < s.inFlight) : s.fetchSub.inFlight = s.inFlight - 1 :=
  if_neg (by omega)

omit [DecidableEq ι] [DecidableEq τ] in
theorem Balanced.init (sys : Topology ι τ α σ) : Balanced (Config.init sys) 0 := by
  have h1 : total (counted ι τ α σ).task (Config.init sys).tasks = 0 :=
    total_eq_zero fun _ => rfl
  have h2 : total (counted ι τ α σ).mail (Config.init sys).mailbox = 0 :=
    total_eq_zero fun _ => rfl
  simp only [Balanced, Config.load, h1, h2]
  rfl

omit [DecidableEq ι] [DecidableEq τ] in
/-- The account balances when the counter and the load change alike. -/
theorem Balanced.move {k d A B : Nat} (hb : Balanced s k)
    (hload : s'.load (counted ι τ α σ) + A = s.load (counted ι τ α σ) + B)
    (hbal : s'.inFlight + A = s.inFlight + B + d) : Balanced s' (k + d) := by
  unfold Balanced at hb ⊢
  omega

omit [DecidableEq τ] in
/-- A task with a message to account for keeps the counter above zero. -/
theorem Balanced.pos {k : Nat} (hb : Balanced s k) (i : ι)
    (h : 0 < (s.tasks i).handling + (s.tasks i).outgoing) : 0 < s.inFlight := by
  obtain ⟨r, h1, -⟩ := total_split (counted ι τ α σ).task s.tasks i
  have hw : (counted ι τ α σ).task (s.tasks i) =
      (s.tasks i).handling + (s.tasks i).outgoing := rfl
  simp only [Balanced, Config.load, h1, hw] at hb
  omega

/-! ## The step lemma -/

/-- **Every step keeps the account**, adding what it strands. -/
theorem Balanced.step {l : Label ι α} {k : Nat} (hb : Balanced s k) (h : Step sys s l s') :
    Balanced s' (k + strands s l) := by
  cases h with
  | @start i hd hpc _ =>
    refine hb.move (load_task _ i rfl rfl rfl) ?_
    simp [counted, hd, hpc, Config.setTask]
  | @compute i phase rest hd hpc =>
    refine hb.move (load_task _ i rfl rfl rfl) ?_
    cases phase <;> simp [counted, hd, hpc, Config.setTask, Config.record]
  | @number i phase rest addr msg hd hpc =>
    refine hb.move (load_task _ i rfl rfl rfl) ?_
    cases phase <;> simp [counted, hd, hpc, Config.setTask, Config.setPc]
  | @startedDone i hd hpc =>
    refine hb.move (load_task _ i rfl rfl rfl) ?_
    simp [counted, hd, hpc, Config.setTask, Config.setPc]
  | @handled i hd hpc =>
    have hpos := hb.pos i (by simp [hd, hpc])
    refine hb.move (load_task _ i rfl rfl rfl) ?_
    show s.fetchSub.inFlight + _ = _
    rw [fetchSub_inFlight hpos]
    split
    all_goals
      simp [counted, hd, hpc, Config.fetchSub]
      omega
  | @emit i phase rest addr msg m hd hpc =>
    refine hb.move (load_task _ i rfl rfl rfl) ?_
    cases phase <;> simp [counted, hd, hpc, Config.setTask, Config.record]
  | @count i phase rest addr env hd hpc =>
    refine hb.move (load_task _ i rfl rfl rfl) ?_
    cases phase <;> simp [counted, hd, hpc, Config.setTask, Config.setPc, Config.incInFlight]
  | @deliver i phase rest addr env hd hpc hlive =>
    refine hb.move (load_taskMail _ i addr rfl rfl rfl) ?_
    cases phase
    all_goals
      simp [counted, hd, hpc, Config.setTask, Config.setPc, Config.push]
      omega
  | @bounce i phase rest addr env hd hpc hgone =>
    refine hb.move (load_task _ i rfl rfl rfl) ?_
    cases phase <;> simp [counted, hd, hpc, Config.setTask, Config.setPc]
  | @undo i phase rest addr env hd hpc =>
    have hpos := hb.pos i (by simp [hd, hpc])
    refine hb.move (load_task _ i rfl rfl rfl) ?_
    show s.fetchSub.inFlight + _ = _
    rw [fetchSub_inFlight hpos]
    cases phase <;> split
    all_goals
      simp [counted, hd, hpc, Config.fetchSub]
      omega
  | @wake i phase rest addr env hd hpc =>
    refine hb.move (load_task _ i (s.notifyOne_setPc_tasks i _) s.notifyOne_mailbox
      s.notifyOne_external) ?_
    cases phase <;> simp [counted, hd, hpc, Config.setPc, Config.setTask]
  | @dequeue i env queue hd hpc hq =>
    refine hb.move (load_taskMail _ i i rfl rfl rfl) ?_
    simp [counted, hd, hpc, hq, Config.setTask, Config.setPc]
    omega
  | @receive i env hd hpc =>
    refine hb.move (load_task _ i rfl rfl rfl) ?_
    simp [counted, hd, hpc, Config.setTask, Config.record]
  | @notify i hd hpc =>
    refine hb.move (load_task _ i (s.notifyOne_setPc_tasks i _) s.notifyOne_mailbox
      s.notifyOne_external) ?_
    simp [counted, hd, hpc, Config.setPc, Config.setTask]
  | @panic i phase rest hd hpc =>
    refine hb.move (load_taskMail _ i i rfl rfl rfl) ?_
    cases phase <;> simp [counted, hd, hpc, Config.setTask, Config.drop, strands]
  | @abort i hr =>
    refine hb.move (load_task _ i rfl rfl rfl) ?_
    simp [counted, Config.setTask]
  | @cancel i ha hd hpc =>
    refine hb.move (load_taskMail _ i i rfl rfl rfl) ?_
    rcases hpc with hpc | hpc <;> simp [counted, hd, hpc, Config.setTask, Config.drop, strands]
  | @sendExternal addr msg hr =>
    refine hb.move (load_ext_snoc _ rfl rfl rfl) ?_
    simp [counted, strands]
  | @extRecord n x hk hx =>
    refine hb.move (load_ext_set _ hk rfl rfl rfl) ?_
    simp [counted, hk, hx, Config.record, strands]
  | @extCount n x hk hx =>
    refine hb.move (load_ext_set _ hk rfl rfl rfl) ?_
    simp [counted, hk, hx, Config.incInFlight, strands]
  | @extDeliver n x hk hx hlive =>
    refine hb.move (load_ext_mail _ x.addr hk rfl rfl rfl) ?_
    simp [counted, hk, hx, hlive, Config.push, strands]
  | @extLost n x hk hx hgone =>
    refine hb.move (load_ext_erase _ hk rfl rfl rfl) ?_
    simp [counted, hk, hx, hgone, strands]
  | call | exit | again | permit | park | join => exact hb

/-! ## Wake-ups -/

/-- About to `notify_one`. -/
def Pc.wakes : Pc ι τ α → Bool
  | .notifying | .sending _ _ .wake _ _ => true
  | _ => false

/-- A wake-up of the runner is on its way: some message still counts, or a task is about to
notify. -/
def Waking (s : Config ι τ α σ) : Prop :=
  0 < s.inFlight ∨ ∃ i, (s.tasks i).dropped = false ∧ (s.tasks i).pc.wakes = true

/-- The runner parks, and stays parked, only while a wake-up is on its way. -/
structure Wakeful (s : Config ι τ α σ) : Prop where
  parked : s.runner = .parked → Waking s
  awaiting : s.runner = .awaiting → s.permit = true ∨ Waking s

omit [Fintype ι] [DecidableEq τ] in
/-- A step of one task that is not about to notify. -/
theorem Waking.task (h : Waking s) {i : ι} (hpc : (s.tasks i).pc.wakes = false)
    {t : Task ι τ α σ} (htasks : s'.tasks = Function.update s.tasks i t)
    (hin : s.inFlight ≤ s'.inFlight) : Waking s' := by
  rcases h with h | ⟨j, hd, hj⟩
  · exact .inl (Nat.lt_of_lt_of_le h hin)
  · have hne : j ≠ i := by rintro rfl; rw [hpc] at hj; cases hj
    exact .inr ⟨j, by rw [htasks, Function.update_of_ne hne]; exact ⟨hd, hj⟩⟩

omit [Fintype ι] [DecidableEq τ] in
theorem Wakeful.task (h : Wakeful s) {i : ι} (hpc : (s.tasks i).pc.wakes = false)
    {t : Task ι τ α σ} (htasks : s'.tasks = Function.update s.tasks i t)
    (hin : s.inFlight ≤ s'.inFlight) (hr : s'.runner = s.runner) (hp : s'.permit = s.permit) :
    Wakeful s' where
  parked := fun hpark => (h.parked (hr ▸ hpark)).task hpc htasks hin
  awaiting := by
    intro ha
    rw [hp]
    exact (h.awaiting (hr ▸ ha)).imp_right fun hw => hw.task hpc htasks hin

omit [Fintype ι] [DecidableEq ι] [DecidableEq τ] in
/-- A step that moves no task. -/
theorem Wakeful.frame (h : Wakeful s) (htasks : s'.tasks = s.tasks)
    (hin : s.inFlight ≤ s'.inFlight) (hr : s'.runner = s.runner) (hp : s'.permit = s.permit) :
    Wakeful s' := by
  have hw : Waking s → Waking s' := by
    rintro (h | ⟨j, hj⟩)
    · exact .inl (Nat.lt_of_lt_of_le h hin)
    · exact .inr ⟨j, by rw [htasks]; exact hj⟩
  exact ⟨fun hpark => hw (h.parked (hr ▸ hpark)), fun ha => by
    rw [hp]; exact (h.awaiting (hr ▸ ha)).imp_right hw⟩

omit [Fintype ι] [DecidableEq ι] [DecidableEq τ] in
theorem Wakeful.waking (hw : Waking s) : Wakeful s := ⟨fun _ => hw, fun _ => .inr hw⟩

omit [Fintype ι] [DecidableEq ι] [DecidableEq τ] in
theorem Wakeful.elsewhere (hp : s.runner ≠ .parked) (ha : s.runner ≠ .awaiting) : Wakeful s :=
  ⟨fun h => absurd h hp, fun h => absurd h ha⟩

omit [Fintype ι] [DecidableEq τ] in
/-- After `notify_one` the runner is awake or finds a permit. -/
theorem Wakeful.notifyOne (i : ι) (pc : Pc ι τ α) : Wakeful (s.notifyOne.setPc i pc) := by
  unfold Config.notifyOne
  split
  · exact .elsewhere Runner.noConfusion Runner.noConfusion
  · rename_i hr
    exact ⟨fun h => absurd h hr, fun _ => .inl rfl⟩

omit [Fintype ι] [DecidableEq τ] in
/-- `dec_in_flight`: the counter stays above zero, or the task goes on to notify. -/
theorem Wakeful.fetchSub (hpos : 0 < s.inFlight) (i : ι) (hd : (s.tasks i).dropped = false)
    {pc : Pc ι τ α} (hpc : s.inFlight = 1 → pc.wakes = true) :
    Wakeful (s.fetchSub.setPc i pc) := by
  refine Wakeful.waking ?_
  by_cases h1 : s.inFlight = 1
  · exact .inr ⟨i, by simp [Config.setPc, Config.setTask, Config.fetchSub, hd, hpc h1]⟩
  · refine .inl ?_
    show 0 < s.fetchSub.inFlight
    rw [fetchSub_inFlight hpos]
    omega

theorem Wakeful.step {l : Label ι α} {k : Nat} (hb : Balanced s k) (hw : Wakeful s)
    (h : Step sys s l s') : Wakeful s' := by
  cases h with
  | @start i hd hpc _ => exact hw.task (by rw [hpc]; rfl) rfl (Nat.le_refl _) rfl rfl
  | @compute i _ _ hd hpc => exact hw.task (by rw [hpc]; rfl) rfl (Nat.le_refl _) rfl rfl
  | @number i _ _ _ _ hd hpc => exact hw.task (by rw [hpc]; rfl) rfl (Nat.le_refl _) rfl rfl
  | @startedDone i hd hpc => exact hw.task (by rw [hpc]; rfl) rfl (Nat.le_refl _) rfl rfl
  | @handled i hd hpc =>
    have hpos := hb.pos i (by simp [hd, hpc])
    exact .fetchSub hpos i hd fun h1 => by rw [if_pos h1]; rfl
  | @emit i _ _ _ _ _ hd hpc => exact hw.task (by rw [hpc]; rfl) rfl (Nat.le_refl _) rfl rfl
  | @count i _ _ _ _ hd hpc => exact hw.task (by rw [hpc]; rfl) rfl (Nat.le_succ _) rfl rfl
  | @deliver i _ _ _ _ hd hpc _ => exact hw.task (by rw [hpc]; rfl) rfl (Nat.le_refl _) rfl rfl
  | @bounce i _ _ _ _ hd hpc _ => exact hw.task (by rw [hpc]; rfl) rfl (Nat.le_refl _) rfl rfl
  | @undo i _ _ _ _ hd hpc =>
    have hpos := hb.pos i (by simp [hd, hpc])
    exact .fetchSub hpos i hd fun h1 => by rw [if_pos h1]; rfl
  | @wake i => exact .notifyOne i _
  | @dequeue i _ _ hd hpc _ => exact hw.task (by rw [hpc]; rfl) rfl (Nat.le_refl _) rfl rfl
  | @receive i _ hd hpc => exact hw.task (by rw [hpc]; rfl) rfl (Nat.le_refl _) rfl rfl
  | @notify i => exact .notifyOne i _
  | @panic i _ _ hd hpc => exact hw.task (by rw [hpc]; rfl) rfl (Nat.le_refl _) rfl rfl
  | @abort i hr =>
    have hr' : (s.setTask i { s.tasks i with aborted := true }).runner = .exited := hr
    exact .elsewhere (by rw [hr']; exact Runner.noConfusion) (by rw [hr']; exact Runner.noConfusion)
  | @cancel i ha hd hpc =>
    have hpc : (s.tasks i).pc.wakes = false := by rcases hpc with hpc | hpc <;> rw [hpc] <;> rfl
    exact hw.task hpc rfl (Nat.le_refl _) rfl rfl
  | sendExternal => exact hw.frame rfl (Nat.le_refl _) rfl rfl
  | extRecord => exact hw.frame rfl (Nat.le_refl _) rfl rfl
  | extCount => exact hw.frame rfl (Nat.le_succ _) rfl rfl
  | extDeliver => exact hw.frame rfl (Nat.le_refl _) rfl rfl
  | extLost => exact hw.frame rfl (Nat.le_refl _) rfl rfl
  | call | exit | permit | join => exact .elsewhere Runner.noConfusion Runner.noConfusion
  | again hr h0 => exact .waking (.inl (Nat.pos_of_ne_zero h0))
  | park hr hp =>
    refine ⟨fun _ => ?_, Runner.noConfusion⟩
    exact (hw.awaiting hr).resolve_left (by rw [hp]; exact Bool.false_ne_true)

/-! ## Runs -/

variable (sys) in
/-- What the steps of a run strand together. -/
def strandedBy : List (Label ι α) → Config ι τ α σ → Nat
  | [], _ => 0
  | l :: ls, s => strands s l +
    match step sys s l with
    | some s' => strandedBy ls s'
    | none => 0

theorem strandedBy_cons {l : Label ι α} {ls : List (Label ι α)} (h : step sys s l = some s') :
    strandedBy sys (l :: ls) s = strands s l + strandedBy sys ls s' := by
  rw [strandedBy, h]

/-- **The account over a run**: the counter is the number of messages on their way plus what the
steps so far have stranded. -/
theorem balanced_of_run : ∀ {ls : List (Label ι α)} {s : Config ι τ α σ} {k : Nat},
    Transition.Run (step sys) s ls s' → Balanced s k → Wakeful s →
      Balanced s' (k + strandedBy sys ls s) ∧ Wakeful s'
  | [], _, _, hr, hb, hw => by cases hr; exact ⟨hb, hw⟩
  | l :: ls, s, k, hr, hb, hw => by
    obtain ⟨s₁, h1, h2⟩ := Run.cons_iff.mp hr
    have hstep := step_cases sys h1
    have := balanced_of_run h2 (hb.step hstep) (hw.step hb hstep)
    rwa [Nat.add_assoc, ← strandedBy_cons h1] at this

theorem strandedBy_eq_zero : ∀ {ls : List (Label ι α)} {s : Config ι τ α σ},
    Transition.Run (step sys) s ls s' → (strandedBy sys ls s = 0 ↔
      Along (step sys) (fun s l => strands s l = 0) ls s)
  | [], _, _ => iff_of_true rfl fun pre l post _ h => by simp at h
  | l :: ls, s, hr => by
    obtain ⟨s₁, h1, h2⟩ := Run.cons_iff.mp hr
    rw [strandedBy_cons h1, Nat.add_eq_zero_iff, strandedBy_eq_zero h2, Run.along_cons h1]

theorem Run.balanced {ls : List (Label ι α)} (h : Run sys ls s) :
    Balanced s (strandedBy sys ls (.init sys)) ∧ Wakeful s := by
  have := balanced_of_run h (.init sys) (.elsewhere Runner.noConfusion Runner.noConfusion)
  rwa [Nat.zero_add] at this

end Lichtung.Prod
