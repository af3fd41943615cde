import Lichtung.Prod.Accounting

/-!
# The ledger of messages

What the log says about messages, against the messages under way.  Every msg_id handed out is on
one recorded emit or about to be (`Issued`); every recorded emit is matched by a recorded recv, or
its message is under way, or it is lost (`Ledger`); an envelope under way stays as it was sent
(`Carries`), so it is meant for the actor it is delivered to (`Addressed`).

Principal results: `Carries.step`, `Issued.step`, `Ledger.step`, `emits_nodup` (no two recorded
emits share a msg_id).
-/

namespace Lichtung.Prod

open Transition

variable {ι τ α σ : Type}

/-! ## Keys of messages -/

/-- The `msg_id`, `src` and `dst` of an event. -/
abbrev Key := Option String × Option String × Option String

def messageKey (e : CausalEvent) : Key := (e.msgId, e.src, e.dst)

def envelopeKey (env : Envelope τ α) : Key := (mid env.msgId, some env.src, some env.dst)

@[simp] theorem messageKey_emitEvent (a : ActorId) (seq : Nat) (env : Envelope τ α) :
    messageKey (emitEvent a seq env) = envelopeKey env := rfl

theorem messageKey_recvEvent {a : ActorId} {env : Envelope τ α} (h : env.dst = a) (seq : Nat)
    (clock : VectorClock) (lamport : Nat) :
    messageKey (recvEvent a seq clock lamport env) = envelopeKey env := by
  subst h; rfl

/-- The keys of the recorded events of one op. -/
def recordedKeys (op : Op) (events : List CausalEvent) : Multiset Key :=
  ((events.filter (·.op = op)).map messageKey : List Key)

theorem recordedKeys_snoc (op : Op) (events : List CausalEvent) (e : CausalEvent) :
    recordedKeys op (events ++ [e]) =
      recordedKeys op events + if e.op = op then {messageKey e} else 0 := by
  unfold recordedKeys
  by_cases h : e.op = op
  · simp only [List.filter_append, List.filter_cons, h, decide_true, if_true, List.filter_nil,
      List.map_append, List.map_cons, List.map_nil, ← Multiset.coe_add, Multiset.coe_singleton]
  · simp only [List.filter_append, List.filter_cons, h, decide_false, Bool.false_eq_true, if_false,
      List.filter_nil, List.append_nil, add_zero]

/-! ## Envelopes under way -/

section Carries

/-- Of the envelope in the hands of task `i`, if any. -/
def Pc.Carries (P : ι → Envelope τ α → Prop) (i : ι) : Pc ι τ α → Prop
  | .received env => P i env
  | .sending _ _ _ addr env => P addr env
  | _ => True

/-- Every envelope under way to `i` satisfies `P i`, or `Q i` while its `emit` is not recorded. -/
structure Carries (P Q : ι → Envelope τ α → Prop) (s : Config ι τ α σ) : Prop where
  tasks : ∀ i, (s.tasks i).pc.Carries P i
  mailbox : ∀ i, ∀ env ∈ s.mailbox i, P i env
  external : ∀ x ∈ s.external, if x.stage = .record then Q x.addr x.env else P x.addr x.env

namespace Carries

variable {P Q : ι → Envelope τ α → Prop} {s s' : Config ι τ α σ}

theorem init (sys : Topology ι τ α σ) : Carries P Q (Config.init sys) where
  tasks := fun _ => trivial
  mailbox := fun _ env henv => by cases henv
  external := fun x hx => by cases hx

theorem mono {P' Q' : ι → Envelope τ α → Prop} (h : Carries P Q s)
    (hP : ∀ i env, P i env → P' i env) (hQ : ∀ i env, Q i env → Q' i env) :
    Carries P' Q' s where
  tasks := by
    intro i
    have := h.tasks i
    cases hpc : (s.tasks i).pc with
    | received | sending => rw [hpc] at this; exact hP _ _ this
    | _ => trivial
  mailbox := fun i env henv => hP i env (h.mailbox i env henv)
  external := by
    intro x hx
    have := h.external x hx
    split
    · rename_i hx; rw [if_pos hx] at this; exact hQ _ _ this
    · rename_i hx; rw [if_neg hx] at this; exact hP _ _ this

section Parts

variable [DecidableEq ι]

theorem task (h : Carries P Q s) (i : ι) {t : Task ι τ α σ}
    (htasks : s'.tasks = Function.update s.tasks i t) (hmail : s'.mailbox = s.mailbox)
    (hext : s'.external = s.external) (ht : t.pc.Carries P i) : Carries P Q s' where
  tasks := by
    rw [htasks]
    exact (Function.forall_update_iff s.tasks fun j t => t.pc.Carries P j).mpr
      ⟨ht, fun j _ => h.tasks j⟩
  mailbox := by rw [hmail]; exact h.mailbox
  external := by rw [hext]; exact h.external

theorem mail (h : Carries P Q s) (j : ι) {q : List (Envelope τ α)}
    (hq : ∀ env ∈ q, P j env) (htasks : s'.tasks = s.tasks)
    (hmail : s'.mailbox = Function.update s.mailbox j q) (hext : s'.external ⊆ s.external) :
    Carries P Q s' where
  tasks := by rw [htasks]; exact h.tasks
  mailbox := by
    rw [hmail]
    exact (Function.forall_update_iff s.mailbox fun j q => ∀ env ∈ q, P j env).mpr
      ⟨hq, fun j _ => h.mailbox j⟩
  external := fun x hx => h.external x (hext hx)

theorem push (h : Carries P Q s) {j : ι} {env : Envelope τ α} (henv : P j env) :
    Carries P Q (s.push j env) := by
  refine h.mail j (fun e he => ?_) rfl rfl fun _ hx => hx
  rcases List.mem_append.mp he with he | he
  · exact h.mailbox j e he
  · obtain rfl := List.mem_singleton.mp he
    exact henv

theorem drop (h : Carries P Q s) (i : ι) : Carries P Q (s.drop i) := by
  have htask : Carries P Q (s.setTask i { s.tasks i with dropped := true }) :=
    h.task i rfl rfl rfl (h.tasks i)
  exact htask.mail i (fun env henv => by cases henv) rfl rfl fun _ hx => hx

omit [DecidableEq ι] in
theorem ext (h : Carries P Q s) (htasks : s'.tasks = s.tasks) (hmail : s'.mailbox = s.mailbox)
    (hext : ∀ x ∈ s'.external, if x.stage = .record then Q x.addr x.env else P x.addr x.env) :
    Carries P Q s' where
  tasks := by rw [htasks]; exact h.tasks
  mailbox := by rw [hmail]; exact h.mailbox
  external := hext

omit [DecidableEq ι] in
theorem set (h : Carries P Q s) {k : Nat} {y : External ι τ α} (htasks : s'.tasks = s.tasks)
    (hmail : s'.mailbox = s.mailbox) (hext : s'.external = s.external.set k y)
    (hy : y.stage ≠ .record) (hP : P y.addr y.env) : Carries P Q s' := by
  refine h.ext htasks hmail fun x hx => ?_
  rw [hext] at hx
  rcases List.mem_or_eq_of_mem_set hx with hx | rfl
  · exact h.external x hx
  · rwa [if_neg hy]

end Parts

variable [DecidableEq ι] [DecidableEq τ] {sys : Topology ι τ α σ}

/-- **Envelopes keep what they were sent with**: a step asks for `P` of an envelope whose `emit` it
records, and for `Q` of one that `send_external` builds. -/
theorem step {l : Label ι α} (h : Carries P Q s) (hs : Step sys s l s')
    (hemit : ∀ i phase rest addr msg m env, l = .task i →
      (s.tasks i).pc = .numbered phase rest addr msg m →
      env = ((s.tasks i).stamps.bump (sys.name i)).envelope (sys.name i) m (sys.addr addr) msg →
      s'.events = s.events ++
        [emitEvent (sys.name i) ((s.tasks i).stamps.bump (sys.name i)).seq env] → P addr env)
    (hext : ∀ addr msg, l = .sendExternal addr msg →
      Q addr (worldEnvelope sys (s.msgId + 1) addr msg))
    (hrec : ∀ x ∈ s.external, x.stage = .record →
      s'.events = s.events ++ [emitEvent "world" 1 x.env] → Q x.addr x.env → P x.addr x.env) :
    Carries P Q s' := by
  have hpc : ∀ {i pc}, (s.tasks i).pc = pc → pc.Carries P i := fun hpc => hpc ▸ h.tasks _
  have hx : ∀ {k : Nat} {x : External ι τ α}, s.external[k]? = some x → x.stage ≠ .record →
      P x.addr x.env := by
    intro k x hk hx
    have := h.external x (List.mem_of_getElem? hk)
    rwa [if_neg hx] at this
  cases hs with
  | @start i hd hpc' _ => exact h.task i rfl rfl rfl trivial
  | @compute i phase rest hd hpc' => exact h.task i rfl rfl rfl trivial
  | @number i phase rest addr msg hd hpc' => exact h.task i rfl rfl rfl trivial
  | @startedDone i hd hpc' => exact h.task i rfl rfl rfl trivial
  | @handled i hd hpc' =>
    refine h.task i rfl rfl rfl ?_
    dsimp only
    split <;> trivial
  | @emit i phase rest addr msg m hd hpc' =>
    exact h.task i rfl rfl rfl (hemit i phase rest addr msg m _ rfl hpc' rfl rfl)
  | @count i phase rest addr env hd hpc' =>
    exact h.task i rfl rfl rfl (hpc hpc' : P addr env)
  | @deliver i phase rest addr env hd hpc' hlive =>
    exact (h.push (hpc hpc')).task i rfl rfl rfl trivial
  | @bounce i phase rest addr env hd hpc' hgone =>
    exact h.task i rfl rfl rfl (hpc hpc' : P addr env)
  | @undo i phase rest addr env hd hpc' =>
    refine h.task i rfl rfl rfl ?_
    dsimp only
    split
    · exact (hpc hpc' : P addr env)
    · trivial
  | @wake i phase rest addr env hd hpc' =>
    exact h.task i (s.notifyOne_setPc_tasks i _) s.notifyOne_mailbox s.notifyOne_external trivial
  | @dequeue i env queue hd hpc' hq =>
    have hmail := h.mailbox i
    rw [hq] at hmail
    have hqueue : Carries P Q { s with mailbox := Function.update s.mailbox i queue } :=
      h.mail i (fun e he => hmail e (List.mem_cons_of_mem _ he)) rfl rfl fun _ hx => hx
    exact hqueue.task i rfl rfl rfl (hmail env (List.mem_cons_self ..))
  | @receive i env hd hpc' => exact h.task i rfl rfl rfl trivial
  | @notify i hd hpc' =>
    exact h.task i (s.notifyOne_setPc_tasks i _) s.notifyOne_mailbox s.notifyOne_external trivial
  | @panic i phase rest hd hpc' => exact h.drop i
  | @abort i hr => exact h.task i rfl rfl rfl (h.tasks i)
  | @cancel i ha hd hpc' => exact h.drop i
  | @sendExternal addr msg hr =>
    refine h.ext rfl rfl fun x hx => ?_
    rcases List.mem_append.mp hx with hx | hx
    · exact h.external x hx
    · obtain rfl := List.mem_singleton.mp hx
      exact hext addr msg rfl
  | @extRecord k x hk hx' =>
    have hmem := List.mem_of_getElem? hk
    have := h.external x hmem
    rw [if_pos hx'] at this
    exact h.set rfl rfl rfl (by simp) (hrec x hmem hx' rfl this)
  | @extCount k x hk hx' =>
    have henv : P x.addr x.env := hx hk (by rw [hx']; simp)
    exact h.set rfl rfl rfl (by simp) henv
  | @extDeliver k x hk hx' hlive =>
    exact (h.push (hx hk (by rw [hx']; simp))).ext rfl rfl
      fun y hy => h.external y (List.mem_of_mem_eraseIdx hy)
  | extLost hk hx' hgone =>
    exact h.ext rfl rfl fun y hy => h.external y (List.mem_of_mem_eraseIdx hy)
  | call | exit | again | permit | park | join => exact ⟨h.tasks, h.mailbox, h.external⟩

end Carries

/-- The envelope is meant for actor `i` and holds a message of its type. -/
def MeantFor (sys : Topology ι τ α σ) (i : ι) (env : Envelope τ α) : Prop :=
  env.dst = sys.name i ∧ env.msg.typeId = (sys.actor i).msgType

/-- Every message under way is meant for the actor it is delivered to. -/
def Addressed (sys : Topology ι τ α σ) (s : Config ι τ α σ) : Prop :=
  Carries (MeantFor sys) (MeantFor sys) s

theorem Addressed.step {s s' : Config ι τ α σ} [DecidableEq ι] [DecidableEq τ]
    {sys : Topology ι τ α σ} {l : Label ι α} (h : Addressed sys s) (hs : Step sys s l s') :
    Addressed sys s' :=
  Carries.step h hs (fun _ _ _ _ _ _ _ _ _ henv _ => henv ▸ ⟨rfl, rfl⟩)
    (fun _ _ _ => ⟨rfl, rfl⟩) fun _ _ _ _ h => h

end Carries

/-! ## Messages under way -/

/-- The key a task carries: of an emit it recorded and has not enqueued, or of a message it
dequeued and has not recorded. -/
@[simp] def Pc.carried : Pc ι τ α → Multiset Key
  | .received env | .sending _ _ .count _ env | .sending _ _ .deliver _ env => {envelopeKey env}
  | _ => 0

/-- The messages recorded as emitted, and not yet as received. -/
def carried (ι τ α σ : Type) : Weights ι τ α σ (Multiset Key) where
  task t := if t.dropped then 0 else t.pc.carried
  mail q := (q.map envelopeKey : List Key)
  ext x := if x.stage = .record then 0 else {envelopeKey x.env}

/-- The msg_ids handed out for emits not yet recorded. -/
def issued (ι τ α σ : Type) : Weights ι τ α σ (Multiset (Option String)) where
  task t := match t.pc with
    | .numbered _ _ _ _ m => {mid m}
    | _ => 0
  mail _ := 0
  ext x := if x.stage = .record then {mid x.env.msgId} else 0

theorem keys_snoc (q : List (Envelope τ α)) (env : Envelope τ α) :
    (((q ++ [env]).map envelopeKey : List Key) : Multiset Key) =
      (q.map envelopeKey : List Key) + {envelopeKey env} := by
  rw [List.map_append, ← Multiset.coe_add]; rfl

theorem keys_cons (q : List (Envelope τ α)) (env : Envelope τ α) :
    (((env :: q).map envelopeKey : List Key) : Multiset Key) =
      (q.map envelopeKey : List Key) + {envelopeKey env} := by
  rw [List.map_cons, ← Multiset.cons_coe, ← Multiset.singleton_add, add_comm]

section Ledger

variable [Fintype ι] {s s' : Config ι τ α σ}

/-- Every recorded emit is recorded as received, under way, or among `lost`. -/
def Ledger (s : Config ι τ α σ) (lost : Multiset Key) : Prop :=
  recordedKeys .emit s.events =
    recordedKeys .recv s.events + s.load (carried ι τ α σ) + lost

/-- The msg_ids on recorded emits and the ones still to be recorded are `m1, m2, ...`, once
each. -/
def Issued (s : Config ι τ α σ) : Prop :=
  (recordedKeys .emit s.events).map Prod.fst + s.load (issued ι τ α σ) =
    ((List.range' 1 s.msgId).map mid : List (Option String))

theorem Ledger.init (sys : Topology ι τ α σ) : Ledger (Config.init sys) 0 := by
  have h1 : total (carried ι τ α σ).task (Config.init sys).tasks = 0 := total_eq_zero fun _ => rfl
  have h2 : total (carried ι τ α σ).mail (Config.init sys).mailbox = 0 := total_eq_zero fun _ => rfl
  simp only [Ledger, Config.load, h1, h2]
  rfl

theorem Issued.init (sys : Topology ι τ α σ) : Issued (Config.init sys) := by
  have h1 : total (issued ι τ α σ).task (Config.init sys).tasks = 0 := total_eq_zero fun _ => rfl
  have h2 : total (issued ι τ α σ).mail (Config.init sys).mailbox = 0 := total_eq_zero fun _ => rfl
  simp only [Issued, Config.load, h1, h2]
  rfl

/-- **No two recorded emits share a msg_id.** -/
theorem Issued.emits_nodup (h : Issued s) :
    ((s.events.filter (·.op = .emit)).map (·.msgId)).Nodup := by
  have hnd : ((List.range' 1 s.msgId).map mid).Nodup :=
    List.Nodup.map (fun _ _ h => mid_inj.mp h) List.nodup_range'
  have hle : (recordedKeys .emit s.events).map Prod.fst ≤
      ((List.range' 1 s.msgId).map mid : List (Option String)) := h ▸ Multiset.le_add_right _ _
  have := Multiset.nodup_of_le hle (Multiset.coe_nodup.mpr hnd)
  simpa [recordedKeys, messageKey, Function.comp_def] using this

/-- The msg_ids handed out so far bound those on recorded emits. -/
theorem Issued.le_of_emit (h : Issued s) {e : CausalEvent} (he : e ∈ s.events)
    (hop : e.op = .emit) {m : Nat} (hm : e.msgId = mid m) : m ≤ s.msgId := by
  have hmem : e.msgId ∈ (recordedKeys .emit s.events).map Prod.fst :=
    Multiset.mem_map.mpr ⟨messageKey e, Multiset.mem_coe.mpr (List.mem_map.mpr
      ⟨e, List.mem_filter.mpr ⟨he, by simpa using hop⟩, rfl⟩), rfl⟩
  have hall := Multiset.mem_of_le (h ▸ Multiset.le_add_right _ _ :
    (recordedKeys .emit s.events).map Prod.fst ≤ _) hmem
  obtain ⟨n, hn, heq⟩ := List.mem_map.mp (Multiset.mem_coe.mp hall)
  obtain rfl := mid_inj.mp (heq.trans hm)
  have := (List.mem_range'_1.mp hn).2
  omega

/-- **No message is recorded as received twice.** -/
theorem Ledger.recvs_nodup {lost : Multiset Key} (h : Ledger s lost) (hi : Issued s) :
    ((s.events.filter (·.op = .recv)).map (·.msgId)).Nodup := by
  have hle : recordedKeys .recv s.events ≤ recordedKeys .emit s.events := by
    rw [h, add_assoc]; exact Multiset.le_add_right _ _
  have hnd : ((recordedKeys .emit s.events).map Prod.fst).Nodup := by
    simpa [recordedKeys, messageKey, Function.comp_def] using hi.emits_nodup
  have := Multiset.nodup_of_le (Multiset.map_le_map hle) hnd
  simpa [recordedKeys, messageKey, Function.comp_def] using this

/-- The account of keys balances when the recorded events and the loads change alike. -/
theorem Ledger.move {lost d A B : Multiset Key} (h : Ledger s lost)
    (hload : s'.load (carried ι τ α σ) + A = s.load (carried ι τ α σ) + B)
    (hbal : recordedKeys .emit s'.events + (recordedKeys .recv s.events + A) =
      recordedKeys .emit s.events + (recordedKeys .recv s'.events + B + d)) :
    Ledger s' (lost + d) := by
  unfold Ledger at h ⊢
  refine add_right_cancel (b := recordedKeys .recv s.events + A) ?_
  calc recordedKeys .emit s'.events + (recordedKeys .recv s.events + A)
      = recordedKeys .recv s.events + recordedKeys .recv s'.events +
          (s.load (carried ι τ α σ) + B) + lost + d := by rw [hbal, h]; abel
    _ = recordedKeys .recv s'.events + s'.load (carried ι τ α σ) + (lost + d) +
          (recordedKeys .recv s.events + A) := by rw [← hload]; abel

theorem Issued.move {A B : Multiset (Option String)} (h : Issued s)
    (hload : s'.load (issued ι τ α σ) + A = s.load (issued ι τ α σ) + B)
    (hbal : (recordedKeys .emit s'.events).map Prod.fst + B +
        ((List.range' 1 s.msgId).map mid : List (Option String)) =
      (recordedKeys .emit s.events).map Prod.fst + A +
        ((List.range' 1 s'.msgId).map mid : List (Option String))) :
    Issued s' := by
  unfold Issued at h ⊢
  refine add_right_cancel (b := (recordedKeys .emit s.events).map Prod.fst + A) ?_
  calc (recordedKeys .emit s'.events).map Prod.fst + s'.load (issued ι τ α σ) +
        ((recordedKeys .emit s.events).map Prod.fst + A)
      = (recordedKeys .emit s'.events).map Prod.fst + (recordedKeys .emit s.events).map Prod.fst +
          (s'.load (issued ι τ α σ) + A) := by abel
    _ = (recordedKeys .emit s'.events).map Prod.fst + B +
          ((recordedKeys .emit s.events).map Prod.fst + s.load (issued ι τ α σ)) := by
        rw [hload]; abel
    _ = _ := by rw [h, hbal, add_comm]

variable [DecidableEq ι] [DecidableEq τ] {sys : Topology ι τ α σ}

/-- The emits a step leaves without a receiver: those of messages dropped with their mailbox or
delivered to a closed one. -/
def loss (s : Config ι τ α σ) : Label ι α → Multiset Key
  | .panic i | .cancel i => ((s.mailbox i).map envelopeKey : List Key)
  | .task i =>
    match (s.tasks i).pc with
    | .sending _ _ .deliver addr env => if (s.tasks addr).dropped then {envelopeKey env} else 0
    | _ => 0
  | .external k =>
    match s.external[k]? with
    | some x =>
      if x.stage = .deliver ∧ (s.tasks x.addr).dropped then {envelopeKey x.env} else 0
    | none => 0
  | _ => 0

/-- **Every step keeps the ledger**, adding to the losses what it loses. -/
theorem Ledger.step {l : Label ι α} {lost : Multiset Key} (h : Ledger s lost)
    (ha : Addressed sys s) (hs : Step sys s l s') : Ledger s' (lost + loss s l) := by
  cases hs with
  | @start i hd hpc _ =>
    refine h.move (load_task _ i rfl rfl rfl) ?_
    simp [carried, hd, hpc, loss, Config.setTask]
  | @compute i phase rest hd hpc =>
    refine h.move (load_task _ i rfl rfl rfl) ?_
    simp [carried, hd, hpc, loss, Config.setTask, Config.record, recordedKeys_snoc,
      computeEvent]
  | @number i phase rest addr msg hd hpc =>
    refine h.move (load_task _ i rfl rfl rfl) ?_
    simp [carried, hd, hpc, loss, Config.setTask, Config.setPc]
  | @startedDone i hd hpc =>
    refine h.move (load_task _ i rfl rfl rfl) ?_
    simp [carried, hd, hpc, loss, Config.setTask, Config.setPc]
  | @handled i hd hpc =>
    refine h.move (load_task _ i rfl rfl rfl) ?_
    split <;>
      simp [carried, hd, hpc, loss, Config.setTask, Config.setPc, Config.fetchSub]
  | @emit i phase rest addr msg m hd hpc =>
    refine h.move (load_task _ i rfl rfl rfl) ?_
    simp only [carried, hd, hpc, loss, Config.setTask, Config.record, recordedKeys_snoc,
      emitEvent_op, messageKey_emitEvent, Pc.carried, Bool.false_eq_true, if_false, if_true,
      reduceCtorEq, add_zero]
    abel
  | @count i phase rest addr env hd hpc =>
    refine h.move (load_task _ i rfl rfl rfl) ?_
    simp [carried, hd, hpc, loss, Config.setTask, Config.setPc, Config.incInFlight]
  | @deliver i phase rest addr env hd hpc hlive =>
    refine h.move (load_taskMail _ i addr rfl rfl rfl) ?_
    simp only [carried, hd, hpc, loss, Config.setTask, Config.setPc, Config.push, hlive, keys_snoc,
      Pc.carried, Bool.false_eq_true, if_false, add_zero]
    abel
  | @bounce i phase rest addr env hd hpc hgone =>
    refine h.move (load_task _ i rfl rfl rfl) ?_
    simp [carried, hd, hpc, loss, Config.setTask, Config.setPc, hgone]
  | @undo i phase rest addr env hd hpc =>
    refine h.move (load_task _ i rfl rfl rfl) ?_
    split <;>
      simp [carried, hd, hpc, loss, Config.setTask, Config.setPc, Config.fetchSub]
  | @wake i phase rest addr env hd hpc =>
    refine h.move (load_task _ i (s.notifyOne_setPc_tasks i _)
      s.notifyOne_mailbox s.notifyOne_external) ?_
    simp [carried, hd, hpc, loss, Config.setTask, Config.setPc]
  | @dequeue i env queue hd hpc hq =>
    refine h.move (load_taskMail _ i i rfl rfl rfl) ?_
    simp only [carried, hd, hpc, hq, loss, Config.setTask, Config.setPc, keys_cons, Pc.carried,
      Bool.false_eq_true, if_false, add_zero, zero_add]
    abel
  | @receive i env hd hpc =>
    have henv : MeantFor sys i env := by
      have := ha.tasks i
      rwa [hpc] at this
    refine h.move (load_task _ i rfl rfl rfl) ?_
    simp only [carried, hd, hpc, loss, Config.setTask, Config.record, recordedKeys_snoc,
      recvEvent_op, messageKey_recvEvent henv.1, Pc.carried, Bool.false_eq_true, if_false, if_true,
      reduceCtorEq, add_zero]
  | @notify i hd hpc =>
    refine h.move (load_task _ i (s.notifyOne_setPc_tasks i _)
      s.notifyOne_mailbox s.notifyOne_external) ?_
    simp [carried, hd, hpc, loss, Config.setTask, Config.setPc]
  | @panic i phase rest hd hpc =>
    refine h.move (load_taskMail _ i i rfl rfl rfl) ?_
    simp [carried, hd, hpc, loss, Config.setTask, Config.drop]
  | @abort i hr =>
    refine h.move (load_task _ i rfl rfl rfl) ?_
    simp [carried, loss, Config.setTask]
  | @cancel i ha hd hpc =>
    refine h.move (load_taskMail _ i i rfl rfl rfl) ?_
    rcases hpc with hpc | hpc <;>
      simp [carried, hd, hpc, loss, Config.setTask, Config.drop]
  | @sendExternal addr msg hr =>
    refine h.move (load_ext_snoc _ rfl rfl rfl) ?_
    simp [carried, loss]
  | @extRecord n x hk hx =>
    refine h.move (load_ext_set _ hk rfl rfl rfl) ?_
    simp only [carried, loss, hk, hx, Config.record, recordedKeys_snoc, emitEvent_op,
      messageKey_emitEvent, if_true, if_false, reduceCtorEq, false_and, add_zero]
    abel
  | @extCount n x hk hx =>
    refine h.move (load_ext_set _ hk rfl rfl rfl) ?_
    simp [carried, loss, hk, hx, Config.incInFlight]
  | @extDeliver n x hk hx hlive =>
    refine h.move (load_ext_mail _ x.addr hk rfl rfl rfl) ?_
    simp only [carried, loss, hk, hx, hlive, Config.push, keys_snoc, if_false, reduceCtorEq,
      Bool.false_eq_true, and_false, add_zero]
  | @extLost n x hk hx hgone =>
    refine h.move (load_ext_erase _ hk rfl rfl rfl) ?_
    simp [carried, loss, hk, hx, hgone]
  | call | exit | again | permit | park | join =>
    rw [show loss s .runner = 0 from rfl, add_zero]
    exact h

/-- The msg_ids up to the next one. -/
theorem mids_succ (n : Nat) :
    (((List.range' 1 (n + 1)).map mid : List (Option String)) : Multiset (Option String)) =
      ((List.range' 1 n).map mid : List (Option String)) + {mid (n + 1)} := by
  rw [List.range'_concat, Nat.one_mul, Nat.add_comm 1 n, List.map_append, ← Multiset.coe_add]
  rfl

theorem Issued.step {l : Label ι α} (h : Issued s) (hs : Step sys s l s') : Issued s' := by
  cases hs with
  | @start i hd hpc _ =>
    refine h.move (load_task _ i rfl rfl rfl) ?_
    simp [issued, hpc, Config.setTask]
  | @compute i phase rest hd hpc =>
    refine h.move (load_task _ i rfl rfl rfl) ?_
    simp [issued, hpc, Config.setTask, Config.record, recordedKeys_snoc]
  | @number i phase rest addr msg hd hpc =>
    refine h.move (load_task _ i rfl rfl rfl) ?_
    simp only [issued, hpc, Config.setTask, Config.setPc, mids_succ, add_zero]
    abel
  | @startedDone i hd hpc =>
    refine h.move (load_task _ i rfl rfl rfl) ?_
    simp [issued, hpc, Config.setTask, Config.setPc]
  | @handled i hd hpc =>
    refine h.move (load_task _ i rfl rfl rfl) ?_
    split <;> simp [issued, hpc, Config.setTask, Config.setPc, Config.fetchSub]
  | @emit i phase rest addr msg m hd hpc =>
    refine h.move (load_task _ i rfl rfl rfl) ?_
    simp [issued, hpc, Config.setTask, Config.record, recordedKeys_snoc, envelopeKey,
      Stamps.envelope]
  | @count i phase rest addr env hd hpc =>
    refine h.move (load_task _ i rfl rfl rfl) ?_
    simp [issued, hpc, Config.setTask, Config.setPc, Config.incInFlight]
  | @deliver i phase rest addr env hd hpc hlive =>
    refine h.move (load_taskMail _ i addr rfl rfl rfl) ?_
    simp [issued, hpc, Config.setTask, Config.setPc, Config.push]
  | @bounce i phase rest addr env hd hpc hgone =>
    refine h.move (load_task _ i rfl rfl rfl) ?_
    simp [issued, hpc, Config.setTask, Config.setPc]
  | @undo i phase rest addr env hd hpc =>
    refine h.move (load_task _ i rfl rfl rfl) ?_
    split <;> simp [issued, hpc, Config.setTask, Config.setPc, Config.fetchSub]
  | @wake i phase rest addr env hd hpc =>
    refine h.move (load_task _ i (s.notifyOne_setPc_tasks i _)
      s.notifyOne_mailbox s.notifyOne_external) ?_
    simp [issued, hpc, Config.setTask, Config.setPc]
  | @dequeue i env queue hd hpc hq =>
    refine h.move (load_taskMail _ i i rfl rfl rfl) ?_
    simp [issued, hpc, Config.setTask, Config.setPc]
  | @receive i env hd hpc =>
    refine h.move (load_task _ i rfl rfl rfl) ?_
    simp [issued, hpc, Config.setTask, Config.record, recordedKeys_snoc]
  | @notify i hd hpc =>
    refine h.move (load_task _ i (s.notifyOne_setPc_tasks i _)
      s.notifyOne_mailbox s.notifyOne_external) ?_
    simp [issued, hpc, Config.setTask, Config.setPc]
  | @panic i phase rest hd hpc =>
    refine h.move (load_taskMail _ i i rfl rfl rfl) ?_
    simp [issued, Config.setTask, Config.drop]
  | @abort i hr =>
    refine h.move (load_task _ i rfl rfl rfl) ?_
    simp [issued, Config.setTask]
  | @cancel i ha hd hpc =>
    refine h.move (load_taskMail _ i i rfl rfl rfl) ?_
    simp [issued, Config.setTask, Config.drop]
  | @sendExternal addr msg hr =>
    refine h.move (load_ext_snoc _ rfl rfl rfl) ?_
    simp only [issued, mids_succ, worldEnvelope, if_true, add_zero]
    abel
  | @extRecord n x hk hx =>
    refine h.move (load_ext_set _ hk rfl rfl rfl) ?_
    simp [issued, hx, Config.record, recordedKeys_snoc, envelopeKey]
  | @extCount n x hk hx =>
    refine h.move (load_ext_set _ hk rfl rfl rfl) ?_
    simp [issued, hx, Config.incInFlight]
  | @extDeliver n x hk hx hlive =>
    refine h.move (load_ext_mail _ x.addr hk rfl rfl rfl) ?_
    simp [issued, hx, Config.push]
  | @extLost n x hk hx hgone =>
    refine h.move (load_ext_erase _ hk rfl rfl rfl) ?_
    simp [issued, hx]
  | call | exit | again | permit | park | join => exact h

end Ledger

end Lichtung.Prod
