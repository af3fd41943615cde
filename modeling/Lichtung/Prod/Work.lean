import Lichtung.Prod.Streams

/-!
# The work an origin causes

Where a message leads to the same events whatever the state of its receiver, it has a price: the
actor and the op of every event recorded on account of it, from its receipt on.  What is recorded
and what is owed for the messages under way add up to what the origins are worth, less what a dying
task forfeits.  So no run records more than its origins are worth, and one without a panic that
comes to its end records exactly that, whatever the interleaving.

Principal results: `Priced.step` and `work_determined`.
-/

namespace Lichtung.Prod

open Transition

variable {ι τ α σ : Type}

/-! ## Prices -/

/-- Events by actor and op. -/
abbrev Kinds := Multiset (ActorId × Op)

def kinds (events : List CausalEvent) : Kinds :=
  (events.map fun e => (e.actor, e.op) : List (ActorId × Op))

theorem kinds_snoc (events : List CausalEvent) (e : CausalEvent) :
    kinds (events ++ [e]) = kinds events + {(e.actor, e.op)} := by
  rw [kinds, List.map_append, ← Multiset.coe_add]; rfl

theorem card_kinds (events : List CausalEvent) : (kinds events).card = events.length := by
  simp [kinds]

section Prices

variable (sys : Topology ι τ α σ) (cost : ι → α → Kinds)

/-- What calls of actor `i` lead to, `cost` being what the receipt of a message leads to. -/
def price (i : ι) : List (Action ι α) → Kinds
  | [] => 0
  | .compute :: rest => {(sys.name i, .compute)} + price i rest
  | .send addr msg :: rest => {(sys.name i, .emit)} + cost addr msg + price i rest

/-- Actors with the default `started`, whose handlers lead to the same events in every state. -/
structure Priced : Prop where
  starts : ∀ i, ((sys.actor i).started (sys.init i)).2 = []
  handles : ∀ i st msg,
    cost i msg = {(sys.name i, .recv)} + price sys cost i ((sys.actor i).handle st msg).2

/-- What is still to be recorded on account of what a task is at. -/
def Pc.due (i : ι) : Pc ι τ α → Kinds
  | .body _ rest => price sys cost i rest
  | .numbered _ rest addr msg _ =>
    {(sys.name i, .emit)} + cost addr msg + price sys cost i rest
  | .sending _ rest .count addr env | .sending _ rest .deliver addr env =>
    cost addr env.msg.val + price sys cost i rest
  | .sending _ rest _ _ _ => price sys cost i rest
  | .received env => cost i env.msg.val
  | _ => 0

def Task.due (i : ι) (t : Task ι τ α σ) : Kinds := if t.dropped then 0 else t.pc.due sys cost i

def mailDue (i : ι) (q : List (Envelope τ α)) : Kinds :=
  (q.map fun env => cost i env.msg.val).sum

def External.due (x : External ι τ α) : Kinds :=
  (if x.stage = .record then {("world", .emit)} else 0) + cost x.addr x.env.msg.val

/-- What an origin is worth. -/
def Label.worth : Label ι α → Kinds
  | .sendExternal addr msg => {("world", .emit)} + cost addr msg
  | _ => 0

def worth (ls : List (Label ι α)) : Kinds := (ls.map (Label.worth cost)).sum

/-- What a step gives up: what a task that ends was at, its mailbox, and a message delivered to a
closed one. -/
def forfeit (s : Config ι τ α σ) : Label ι α → Kinds
  | .panic i | .cancel i => Task.due sys cost i (s.tasks i) + mailDue cost i (s.mailbox i)
  | .task i =>
    match (s.tasks i).pc with
    | .sending _ _ .deliver addr env =>
      if (s.tasks addr).dropped then cost addr env.msg.val else 0
    | _ => 0
  | .external k =>
    match s.external[k]? with
    | some x => if x.stage = .deliver ∧ (s.tasks x.addr).dropped then cost x.addr x.env.msg.val else 0
    | none => 0
  | _ => 0

end Prices

/-! ## What is owed -/

section Owed

variable [Fintype ι] (sys : Topology ι τ α σ) (cost : ι → α → Kinds)

/-- What is still to be recorded on account of the messages under way. -/
def owed (s : Config ι τ α σ) : Kinds :=
  ∑ i, Task.due sys cost i (s.tasks i) + ∑ i, mailDue cost i (s.mailbox i) +
    (s.external.map (External.due cost)).sum

variable {sys cost} [DecidableEq ι] {s s' : Config ι τ α σ}

theorem owed_taskMail (i j : ι) {t : Task ι τ α σ} {q : List (Envelope τ α)}
    (htasks : s'.tasks = Function.update s.tasks i t)
    (hmail : s'.mailbox = Function.update s.mailbox j q) (hext : s'.external = s.external) :
    owed sys cost s' + (Task.due sys cost i (s.tasks i) + mailDue cost j (s.mailbox j)) =
      owed sys cost s + (Task.due sys cost i t + mailDue cost j q) := by
  have ht := sum_update (f := Task.due sys cost) s.tasks i t
  have hq := sum_update (f := mailDue cost) s.mailbox j q
  simp only [owed, htasks, hmail, hext]
  calc
    _ = (∑ k, Task.due sys cost k (Function.update s.tasks i t k) +
          Task.due sys cost i (s.tasks i)) +
        (∑ k, mailDue cost k (Function.update s.mailbox j q k) + mailDue cost j (s.mailbox j)) +
          (s.external.map (External.due cost)).sum := by abel
    _ = _ := by rw [ht, hq]; abel

theorem owed_task (i : ι) {t : Task ι τ α σ} (htasks : s'.tasks = Function.update s.tasks i t)
    (hmail : s'.mailbox = s.mailbox) (hext : s'.external = s.external) :
    owed sys cost s' + Task.due sys cost i (s.tasks i) =
      owed sys cost s + Task.due sys cost i t := by
  have ht := sum_update (f := Task.due sys cost) s.tasks i t
  simp only [owed, htasks, hmail, hext]
  calc
    _ = (∑ k, Task.due sys cost k (Function.update s.tasks i t k) +
          Task.due sys cost i (s.tasks i)) + ∑ k, mailDue cost k (s.mailbox k) +
          (s.external.map (External.due cost)).sum := by abel
    _ = _ := by rw [ht]; abel

variable (σ) in
/-- The weight of a `send_external` in progress alone. -/
def externalDue (cost : ι → α → Kinds) : Weights ι τ α σ Kinds := ⟨0, 0, External.due cost⟩

omit [DecidableEq ι] in
/-- A `send_external` moves on. -/
theorem owed_set {k : Nat} {x y : External ι τ α} (hk : s.external[k]? = some x)
    (htasks : s'.tasks = s.tasks) (hmail : s'.mailbox = s.mailbox)
    (hext : s'.external = s.external.set k y) :
    owed sys cost s' + External.due cost x = owed sys cost s + External.due cost y := by
  have he := sum_ext_set (externalDue σ cost) y hk
  simp only [owed, htasks, hmail, hext, add_assoc]
  exact congrArg _ (congrArg _ he)

omit [DecidableEq ι] in
/-- A `send_external` ends. -/
theorem owed_erase {k : Nat} {x : External ι τ α} (hk : s.external[k]? = some x)
    (htasks : s'.tasks = s.tasks) (hmail : s'.mailbox = s.mailbox)
    (hext : s'.external = s.external.eraseIdx k) :
    owed sys cost s' + External.due cost x = owed sys cost s + 0 := by
  have he := sum_ext_erase (externalDue σ cost) hk
  simp only [owed, htasks, hmail, hext, add_assoc, add_zero]
  exact congrArg _ (congrArg _ he)

omit [Fintype ι] [DecidableEq ι] in
theorem mailDue_snoc (i : ι) (q : List (Envelope τ α)) (env : Envelope τ α) :
    mailDue cost i (q ++ [env]) = mailDue cost i q + cost i env.msg.val := by simp [mailDue]

/-- A message reaches a mailbox. -/
theorem owed_push {i : ι} {env : Envelope τ α} :
    owed sys cost (s.push i env) = owed sys cost s + cost i env.msg.val := by
  have hq := sum_update (f := mailDue cost) s.mailbox i (s.mailbox i ++ [env])
  have hq' : ∑ j, mailDue cost j (Function.update s.mailbox i (s.mailbox i ++ [env]) j) =
      ∑ j, mailDue cost j (s.mailbox j) + cost i env.msg.val := by
    rw [mailDue_snoc] at hq
    refine add_right_cancel (b := mailDue cost i (s.mailbox i)) (hq.trans ?_)
    abel
  rw [owed, owed, Config.push, hq']
  abel

omit [DecidableEq ι] in
/-- What is recorded is taken from what is owed. -/
theorem balance {A B f w : Kinds} (howed : owed sys cost s' + A = owed sys cost s + B)
    (hkinds : kinds s'.events + B + f = kinds s.events + A + w) :
    kinds s'.events + owed sys cost s' + f = kinds s.events + owed sys cost s + w := by
  refine add_right_cancel (b := A) ?_
  calc
    _ = kinds s'.events + (owed sys cost s' + A) + f := by abel
    _ = (kinds s'.events + B + f) + owed sys cost s := by rw [howed]; abel
    _ = _ := by rw [hkinds]; abel

end Owed

/-! ## The step lemma -/

variable [Fintype ι] [DecidableEq ι] [DecidableEq τ] {sys : Topology ι τ α σ}
  {cost : ι → α → Kinds} {s s' : Config ι τ α σ}

/-- **Every step keeps the account**: what it records was owed or is newly worth, and what it
forfeits is owed no more. -/
theorem Priced.step (hp : Priced sys cost) {l : Label ι α} (hsound : Sound sys s)
    (hs : Step sys s l s') : kinds s'.events + owed sys cost s' + forfeit sys cost s l =
      kinds s.events + owed sys cost s + Label.worth cost l := by
  cases hs with
  | @start i hd hpc _ =>
    refine balance (owed_task i rfl rfl rfl) ?_
    have hcalls : ((sys.actor i).started (s.tasks i).state).2 = [] := by
      rw [hsound.fresh i hpc]
      exact hp.starts i
    simp [Task.due, Pc.due, hd, hpc, hcalls, price, forfeit, Label.worth, Config.setTask]
  | @compute i phase rest hd hpc =>
    refine balance (owed_task i rfl rfl rfl) ?_
    simp only [Task.due, Pc.due, hd, hpc, price, forfeit, Label.worth, Config.setTask, Config.record,
      kinds_snoc, Bool.false_eq_true, if_false]
    show _ + {(sys.name i, Op.compute)} + _ + _ = _
    abel
  | @number i phase rest addr msg hd hpc =>
    refine balance (owed_task i rfl rfl rfl) ?_
    simp [Task.due, Pc.due, hd, hpc, price, forfeit, Label.worth, Config.setTask, Config.setPc]
  | @startedDone i hd hpc =>
    refine balance (owed_task i rfl rfl rfl) ?_
    simp [Task.due, Pc.due, hd, hpc, price, forfeit, Label.worth, Config.setTask, Config.setPc]
  | @handled i hd hpc =>
    refine balance (owed_task i rfl rfl rfl) ?_
    split <;>
      simp [Task.due, Pc.due, hd, hpc, price, forfeit, Label.worth, Config.setTask, Config.setPc,
        Config.fetchSub]
  | @emit i phase rest addr msg m hd hpc =>
    refine balance (owed_task i rfl rfl rfl) ?_
    simp only [Task.due, Pc.due, hd, hpc, forfeit, Label.worth, Config.setTask, Config.record,
      kinds_snoc, Bool.false_eq_true, if_false]
    show _ + {(sys.name i, Op.emit)} + (cost addr msg + _) + _ = _
    abel
  | @count i phase rest addr env hd hpc =>
    refine balance (owed_task i rfl rfl rfl) ?_
    simp [Task.due, Pc.due, hd, hpc, forfeit, Label.worth, Config.setTask, Config.setPc,
      Config.incInFlight]
  | @deliver i phase rest addr env hd hpc hlive =>
    refine balance (owed_taskMail i addr rfl rfl rfl) ?_
    simp only [Task.due, Pc.due, hd, hpc, forfeit, Label.worth, Config.setTask, Config.setPc,
      Config.push, hlive, mailDue_snoc, Bool.false_eq_true, if_false]
    abel
  | @bounce i phase rest addr env hd hpc hgone =>
    refine balance (owed_task i rfl rfl rfl) ?_
    simp only [Task.due, Pc.due, hd, hpc, forfeit, Label.worth, Config.setTask, Config.setPc, hgone,
      Bool.false_eq_true, if_false, if_true]
    abel
  | @undo i phase rest addr env hd hpc =>
    refine balance (owed_task i rfl rfl rfl) ?_
    split <;>
      simp [Task.due, Pc.due, hd, hpc, forfeit, Label.worth, Config.setTask, Config.setPc,
        Config.fetchSub]
  | @wake i phase rest addr env hd hpc =>
    refine balance (owed_task i (s.notifyOne_setPc_tasks i _) s.notifyOne_mailbox
      s.notifyOne_external) ?_
    simp [Task.due, Pc.due, hd, hpc, forfeit, Label.worth, Config.setTask, Config.setPc]
  | @dequeue i env queue hd hpc hq =>
    refine balance (owed_taskMail i i rfl rfl rfl) ?_
    simp [Task.due, Pc.due, hd, hpc, hq, mailDue, forfeit, Label.worth, Config.setTask, Config.setPc]
  | @receive i env hd hpc =>
    have htype : env.msg.typeId = (sys.actor i).msgType := by
      have := hsound.addressed.tasks i
      rw [hpc] at this
      exact this.2
    refine balance (owed_task i rfl rfl rfl) ?_
    simp only [Task.due, Pc.due, hd, hpc, handleAny, if_pos htype, forfeit, Label.worth,
      Config.setTask, Config.record, kinds_snoc, Bool.false_eq_true, if_false]
    rw [hp.handles i (s.tasks i).state env.msg.val]
    show _ + {(sys.name i, Op.recv)} + _ + _ = _
    abel
  | @notify i hd hpc =>
    refine balance (owed_task i (s.notifyOne_setPc_tasks i _) s.notifyOne_mailbox
      s.notifyOne_external) ?_
    simp [Task.due, Pc.due, hd, hpc, forfeit, Label.worth, Config.setTask, Config.setPc]
  | @panic i phase rest hd hpc =>
    refine balance (owed_taskMail i i rfl rfl rfl) ?_
    simp [Task.due, mailDue, forfeit, Label.worth, Config.setTask, Config.drop]
  | @abort i hr =>
    refine balance (owed_task i rfl rfl rfl) ?_
    simp [Task.due, forfeit, Label.worth, Config.setTask]
  | @cancel i ha hd hpc =>
    refine balance (owed_taskMail i i rfl rfl rfl) ?_
    simp [Task.due, mailDue, forfeit, Label.worth, Config.setTask, Config.drop]
  | @sendExternal addr msg hr =>
    refine balance (A := 0) (B := {("world", .emit)} + cost addr msg) ?_ ?_
    · simp [owed, External.due, worldEnvelope, add_assoc]
    · simp [forfeit, Label.worth]
  | @extRecord n x hk hx =>
    refine balance (owed_set hk rfl rfl rfl) ?_
    simp only [External.due, hx, Config.record, kinds_snoc, forfeit, hk, Label.worth,
      reduceCtorEq, false_and, if_false, if_true]
    show _ + {("world", Op.emit)} + _ + _ = _
    abel
  | @extCount n x hk hx =>
    refine balance (owed_set hk rfl rfl rfl) ?_
    simp [External.due, hx, Config.incInFlight, forfeit, hk, Label.worth]
  | @extDeliver n x hk hx hlive =>
    refine balance (A := External.due cost x) (B := cost x.addr x.env.msg.val) ?_ ?_
    · rw [← owed_push]
      have herase : owed sys cost { s.push x.addr x.env with external := s.external.eraseIdx n } +
          External.due cost x = owed sys cost (s.push x.addr x.env) + 0 :=
        owed_erase hk rfl rfl rfl
      exact herase.trans (add_zero _)
    · simp [External.due, forfeit, hk, hx, hlive, Label.worth, Config.push]
  | @extLost n x hk hx hgone =>
    refine balance (A := External.due cost x) (B := 0) (owed_erase hk rfl rfl rfl) ?_
    simp [External.due, forfeit, hk, hx, hgone, Label.worth]
  | call | exit | again | permit | park | join => rfl

/-! ## Runs -/

/-- A step of a run without a panic forfeits nothing. -/
theorem forfeit_eq_zero (hf : Finished sys s) {l : Label ι α} (hl : l.quiet)
    (hs : Step sys s l s') : forfeit sys cost s l = 0 := by
  have hlive : ∀ {addr}, s.external ≠ [] ∨ (∃ i, ¬ (s.tasks i).pc.still) →
      (s.tasks addr).dropped = false := by
    intro addr hbusy
    rcases hf.still with ⟨hint, -⟩ | hstill
    · exact (hint.undropped addr).2
    · rcases hbusy with hext | ⟨i, hi⟩
      · exact absurd hstill.external hext
      · exact absurd (hstill.idle i) hi
  cases hs with
  | panic => exact absurd hl id
  | @cancel i ha hd hpc =>
    have hmail : s.mailbox i = [] := by
      rcases hf.still with ⟨hint, -⟩ | hstill
      · rw [(hint.undropped i).1] at ha; cases ha
      · exact hstill.mailbox i
    rcases hpc with hpc | hpc <;> simp [forfeit, Task.due, Pc.due, mailDue, hpc, hmail]
  | @bounce i phase rest addr env hd hpc hgone =>
    rw [hlive (.inr ⟨i, by rw [hpc]; exact id⟩)] at hgone
    cases hgone
  | @extLost k x hk hx hgone =>
    rw [hlive (.inl fun hnil => by rw [hnil] at hk; cases hk)] at hgone
    cases hgone
  | @deliver i phase rest addr env hd hpc hlive => simp [forfeit, hpc, hlive]
  | extDeliver hk hx hlive => simp [forfeit, hk, hlive]
  | extRecord hk hx | extCount hk hx => simp [forfeit, hk, hx]
  | start hd hpc | compute hd hpc | number hd hpc | startedDone hd hpc | handled hd hpc
  | emit hd hpc | count hd hpc | undo hd hpc | wake hd hpc | dequeue hd hpc | receive hd hpc
  | notify hd hpc => simp [forfeit, hpc]
  | abort | sendExternal | call | exit | again | permit | park | join => rfl

omit [Fintype ι] [DecidableEq ι] [DecidableEq τ] in
theorem Priced.silent (hp : Priced sys cost) : SilentStart sys := by
  intro i a ha
  rw [hp.starts i] at ha
  cases ha

/-- **The account of a run**: recorded, owed and forfeited make up what the origins are worth, and
without a panic nothing is forfeited. -/
theorem Priced.run (hp : Priced sys cost) : ∀ {ls : List (Label ι α)} {s s' : Config ι τ α σ},
    Sound sys s → Transition.Run (Prod.step sys) s ls s' → ∃ lost,
      kinds s'.events + owed sys cost s' + lost =
        kinds s.events + owed sys cost s + worth cost ls ∧
      (Finished sys s → (∀ l ∈ ls, l.quiet) → lost = 0)
  | [], s, s', _, h => by
    cases h
    exact ⟨0, by simp [worth], fun _ _ => rfl⟩
  | l :: ls, s, s', hs, h => by
    obtain ⟨s₁, hstep, hr⟩ := Run.cons_iff.mp h
    have hstep := step_cases sys hstep
    obtain ⟨lost, hrest, hnone⟩ := hp.run (hs.step hstep) hr
    refine ⟨lost + forfeit sys cost s l, ?_, fun hf hq => ?_⟩
    · have hone := hp.step hs hstep
      calc
        _ = (kinds s'.events + owed sys cost s' + lost) + forfeit sys cost s l := by abel
        _ = (kinds s₁.events + owed sys cost s₁ + forfeit sys cost s l) + worth cost ls := by
          rw [hrest]; abel
        _ = _ := by rw [hone, worth, worth, List.map_cons, List.sum_cons]; abel
    · have hl := hq l (List.mem_cons_self ..)
      rw [forfeit_eq_zero hf hl hstep, add_zero]
      exact hnone (hf.step hp.silent hl hstep) fun l h => hq l (List.mem_cons_of_mem _ h)

omit [DecidableEq ι] [DecidableEq τ] in
/-- After the join nothing is owed. -/
theorem owed_of_done (hf : Finished sys s) (hdone : s.runner = .done) : owed sys cost s = 0 := by
  have hstill : Still sys s := by
    rcases hf.still with ⟨-, hr⟩ | hstill
    · rw [hdone] at hr
      exact absurd trivial hr
    · exact hstill
  have htask : ∀ i, Task.due sys cost i (s.tasks i) = 0 := fun i =>
    if_pos (hf.ended.joined hdone i)
  have hmail : ∀ i, mailDue cost i (s.mailbox i) = 0 := fun i => by rw [hstill.mailbox i]; rfl
  simp [owed, htask, hmail, hstill.external]

theorem Run.work (hp : Priced sys cost) {ls : List (Label ι α)} (h : Run sys ls s) :
    ∃ lost, kinds s.events + owed sys cost s + lost = worth cost ls ∧
      ((∀ l ∈ ls, l.quiet) → lost = 0) := by
  have hinit : kinds (Config.init sys).events + owed sys cost (Config.init sys) = 0 := by
    simp [kinds, owed, Config.init, Task.due, Pc.due, mailDue]
  obtain ⟨lost, hwork, hnone⟩ := hp.run (.init sys) h
  rw [hinit, zero_add] at hwork
  exact ⟨lost, hwork, hnone (Run.finished hp.silent (.nil _) (by simp))⟩

theorem Run.worked (hp : Priced sys cost) {ls : List (Label ι α)} (h : Run sys ls s)
    (hq : ∀ l ∈ ls, l.quiet) (hdone : s.runner = .done) : kinds s.events = worth cost ls := by
  obtain ⟨lost, hwork, hnone⟩ := h.work hp
  rwa [hnone hq, owed_of_done (Run.finished hp.silent h hq) hdone, add_zero, add_zero] at hwork

/-- **The work of a run is determined by its origins.**  Where a message leads to the same events
whatever the state of its receiver, no run records more than its origins are worth; and in a run
without a panic that has been joined exactly the events its origins are worth are recorded, by
actor and op, whatever the interleaving. -/
theorem work_determined (hp : Priced sys cost) {ls : List (Label ι α)} (h : Run sys ls s) :
    kinds s.events ≤ worth cost ls ∧
      ((∀ l ∈ ls, l.quiet) → s.runner = .done → kinds s.events = worth cost ls) := by
  refine ⟨?_, h.worked hp⟩
  obtain ⟨lost, hwork, -⟩ := h.work hp
  rw [← hwork, add_assoc]
  exact Multiset.le_add_right _ _

/-- What the courier and the sink record for each number. -/
theorem couriers_priced : Priced couriers fun courier _ =>
    if courier then {("courier", .recv), ("courier", .emit), ("sink", .recv)}
    else {("sink", .recv)} where
  starts := fun _ => rfl
  handles := by
    rintro (_ | _) _ _ <;> rfl

theorem work_determined_couriers : ∃ s, Run couriers closedDelivery s ∧ kinds s.events =
    {("world", .emit), ("courier", .recv), ("courier", .emit), ("sink", .recv)} := by
  obtain ⟨s, hrun, hdone⟩ : ∃ s, Run couriers closedDelivery s ∧ s.runner = .done := ⟨_, rfl, rfl⟩
  have hq : ∀ l ∈ closedDelivery, l.quiet := by
    simp [closedDelivery, deliveredRun, Label.quiet]
  exact ⟨s, hrun, (work_determined couriers_priced hrun).2 hq hdone⟩

end Lichtung.Prod
