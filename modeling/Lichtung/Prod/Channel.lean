import Lichtung.Prod.Reproduction

/-!
# The channels between actors

From one actor to another messages go through one mailbox, put there by one task that finishes each
`Context::send` before the next.  So each pair of actors has a reliable queue between them: what has
been received is what was sent first, in order, and while the receiver lives the rest is under way.

Principal results: `Fifo.step` and `fifo_channels`.
-/

namespace Lichtung.Prod

open Transition

variable {ι τ α σ : Type}

/-! ## What the log says of a channel -/

/-- The msg_ids of the recorded emits of `a` to `b`, in order. -/
def sentTo (events : List CausalEvent) (a b : ActorId) : List (Option String) :=
  (events.filter fun e => e.op = .emit ∧ e.actor = a ∧ e.dst = some b).map (·.msgId)

/-- The msg_ids of the recorded recvs of `b` from `a`, in order. -/
def receivedFrom (events : List CausalEvent) (a b : ActorId) : List (Option String) :=
  (events.filter fun e => e.op = .recv ∧ e.actor = b ∧ e.src = some a).map (·.msgId)

theorem sentTo_snoc (events : List CausalEvent) (e : CausalEvent) (a b : ActorId) :
    sentTo (events ++ [e]) a b = sentTo events a b ++
      if e.op = .emit ∧ e.actor = a ∧ e.dst = some b then [e.msgId] else [] := by
  unfold sentTo
  rw [List.filter_append, List.map_append]
  by_cases h : e.op = .emit ∧ e.actor = a ∧ e.dst = some b
  · simp [h]
  · rw [if_neg h, List.filter_cons_of_neg (by simpa using h), List.filter_nil, List.map_nil]

theorem receivedFrom_snoc (events : List CausalEvent) (e : CausalEvent) (a b : ActorId) :
    receivedFrom (events ++ [e]) a b = receivedFrom events a b ++
      if e.op = .recv ∧ e.actor = b ∧ e.src = some a then [e.msgId] else [] := by
  unfold receivedFrom
  rw [List.filter_append, List.map_append]
  by_cases h : e.op = .recv ∧ e.actor = b ∧ e.src = some a
  · simp [h]
  · rw [if_neg h, List.filter_cons_of_neg (by simpa using h), List.filter_nil, List.map_nil]

/-! ## What is under way -/

/-- The envelope a task has dequeued and not recorded. -/
def Pc.holding : Pc ι τ α → List (Envelope τ α)
  | .received env => [env]
  | _ => []

variable [DecidableEq ι]

/-- The envelope a task has recorded and not put into the mailbox of `j`. -/
def Pc.outgoingTo (j : ι) : Pc ι τ α → List (Envelope τ α)
  | .sending _ _ .count addr env | .sending _ _ .deliver addr env => if addr = j then [env] else []
  | _ => []

/-- The envelopes on their way from `i` to `j`, oldest first. -/
def underWay (sys : Topology ι τ α σ) (s : Config ι τ α σ) (i j : ι) : List (Envelope τ α) :=
  ((s.tasks j).pc.holding ++ s.mailbox j).filter (·.src = sys.name i) ++
    (s.tasks i).pc.outgoingTo j

/-- What has been received was sent first, in order; while the receiver lives the rest is under
way. -/
def Fifo (sys : Topology ι τ α σ) (s : Config ι τ α σ) (i j : ι) : Prop :=
  ∃ rest, sentTo s.events (sys.name i) (sys.name j) =
      receivedFrom s.events (sys.name i) (sys.name j) ++ rest ∧
    ((s.tasks j).dropped = false → rest = (underWay sys s i j).map fun env => mid env.msgId)

/-- Envelopes bear the name of the actor that sends them. -/
structure Signed (sys : Topology ι τ α σ) (s : Config ι τ α σ) : Prop where
  tasks : ∀ k phase rest stage addr env,
    (s.tasks k).pc = .sending phase rest stage addr env → env.src = sys.name k
  external : ∀ x ∈ s.external, x.env.src = "world"

variable {sys : Topology ι τ α σ} {s s' : Config ι τ α σ}

/-- A step of one task. -/
theorem Signed.task (h : Signed sys s) (k : ι) {t : Task ι τ α σ}
    (htasks : s'.tasks = Function.update s.tasks k t) (hext : s'.external = s.external)
    (ht : ∀ phase rest stage addr env, t.pc = .sending phase rest stage addr env →
      env.src = sys.name k) : Signed sys s' where
  tasks := by
    rw [htasks]
    exact (Function.forall_update_iff s.tasks fun k t => ∀ phase rest stage addr env,
      t.pc = .sending phase rest stage addr env → env.src = sys.name k).mpr
        ⟨ht, fun j _ => h.tasks j⟩
  external := by rw [hext]; exact h.external

omit [DecidableEq ι] in
theorem Signed.frame (h : Signed sys s) (htasks : s'.tasks = s.tasks)
    (hext : ∀ x ∈ s'.external, x.env.src = "world") : Signed sys s' :=
  ⟨by rw [htasks]; exact h.tasks, hext⟩

variable [DecidableEq τ]

theorem Signed.step {l : Label ι α} (h : Signed sys s) (hs : Step sys s l s') : Signed sys s' := by
  cases hs with
  | @start i | @compute i | @number i | @startedDone i | @dequeue i | @receive i =>
    exact h.task i rfl rfl (by simp)
  | @handled i =>
    refine h.task i rfl rfl fun phase rest stage addr env hpc => ?_
    dsimp only at hpc
    split at hpc <;> cases hpc
  | @emit i phase rest addr msg m hd hpc =>
    refine h.task i rfl rfl fun phase' rest' stage' addr' env' hpc' => ?_
    cases hpc'
    rfl
  | @count i phase rest addr env hd hpc | @bounce i phase rest addr env hd hpc =>
    refine h.task i rfl rfl fun phase' rest' stage' addr' env' hpc' => ?_
    cases hpc'
    exact h.tasks i phase rest _ addr env hpc
  | @deliver i => exact h.task i rfl rfl (by simp)
  | @undo i phase rest addr env hd hpc =>
    refine h.task i rfl rfl fun phase' rest' stage' addr' env' hpc' => ?_
    dsimp only at hpc'
    split at hpc'
    · cases hpc'
      exact h.tasks i phase rest _ addr env hpc
    · cases hpc'
  | @wake i | @notify i =>
    exact h.task i (s.notifyOne_setPc_tasks i _) s.notifyOne_external (by simp)
  | @panic i | @abort i | @cancel i => exact h.task i rfl rfl (h.tasks i)
  | @sendExternal addr msg hr =>
    refine h.frame rfl fun x hx => ?_
    rcases List.mem_append.mp hx with hx | hx
    · exact h.external x hx
    · obtain rfl := List.mem_singleton.mp hx
      rfl
  | @extRecord k x hk | @extCount k x hk =>
    refine h.frame rfl fun y hy => ?_
    rcases List.mem_or_eq_of_mem_set hy with hy | rfl
    · exact h.external y hy
    · exact h.external x (List.mem_of_getElem? hk)
  | extDeliver | extLost =>
    exact h.frame rfl fun y hy => h.external y (List.mem_of_mem_eraseIdx hy)
  | call | exit | again | permit | park | join => exact ⟨h.tasks, h.external⟩

/-! ## One step -/

omit [DecidableEq ι] [DecidableEq τ] in
theorem Fifo.init (sys : Topology ι τ α σ) [DecidableEq ι] (i j : ι) :
    Fifo sys (Config.init sys) i j :=
  ⟨[], rfl, fun _ => rfl⟩

omit [DecidableEq τ] in
/-- `new` is sent, and `old` received, the oldest of what was under way. -/
theorem Fifo.move {i j : ι} (h : Fifo sys s i j) (new old : List (Envelope τ α))
    (hsent : sentTo s'.events (sys.name i) (sys.name j) =
      sentTo s.events (sys.name i) (sys.name j) ++ new.map fun env => mid env.msgId)
    (hrecv : receivedFrom s'.events (sys.name i) (sys.name j) =
      receivedFrom s.events (sys.name i) (sys.name j) ++ old.map fun env => mid env.msgId)
    (hway : (s'.tasks j).dropped = false →
      (s.tasks j).dropped = false ∧ underWay sys s i j ++ new = old ++ underWay sys s' i j)
    (hold : old = [] ∨ (s'.tasks j).dropped = false) : Fifo sys s' i j := by
  obtain ⟨rest, hrest, hlive⟩ := h
  cases hd : (s'.tasks j).dropped with
  | false =>
    obtain ⟨hd0, heq⟩ := hway hd
    refine ⟨_, ?_, fun _ => rfl⟩
    rw [hsent, hrecv, hrest, hlive hd0, List.append_assoc, List.append_assoc, ← List.map_append,
      heq, List.map_append]
  | true =>
    obtain rfl := hold.resolve_right (by simp [hd])
    refine ⟨rest ++ new.map fun env => mid env.msgId, ?_, fun hd' => by rw [hd] at hd'; cases hd'⟩
    rw [hsent, hrecv, hrest, List.map_nil, List.append_nil, List.append_assoc]

omit [DecidableEq τ] in
/-- A step that records nothing on the channel and moves nothing in it. -/
theorem Fifo.frame {i j : ι} (h : Fifo sys s i j)
    (hsent : sentTo s'.events (sys.name i) (sys.name j) =
      sentTo s.events (sys.name i) (sys.name j))
    (hrecv : receivedFrom s'.events (sys.name i) (sys.name j) =
      receivedFrom s.events (sys.name i) (sys.name j))
    (hway : (s'.tasks j).dropped = false →
      (s.tasks j).dropped = false ∧ underWay sys s' i j = underWay sys s i j) :
    Fifo sys s' i j := by
  refine h.move [] [] ?_ ?_ (fun hd => ⟨(hway hd).1, ?_⟩) (.inl rfl)
  · rw [hsent, List.map_nil, List.append_nil]
  · rw [hrecv, List.map_nil, List.append_nil]
  · rw [(hway hd).2, List.append_nil, List.nil_append]

omit [DecidableEq τ] in
theorem update_congr {β : Type} {k : ι} {t : Task ι τ α σ} (f : Task ι τ α σ → β)
    (hf : f t = f (s.tasks k)) (m : ι) : f (Function.update s.tasks k t m) = f (s.tasks m) := by
  by_cases hm : m = k
  · subst hm; rw [Function.update_self]; exact hf
  · rw [Function.update_of_ne hm]

omit [DecidableEq τ] in
/-- What a step of task `k` does not change of it, it does not change of any task. -/
theorem task_congr {β : Type} {k : ι} {t : Task ι τ α σ}
    (htasks : s'.tasks = Function.update s.tasks k t) (f : Task ι τ α σ → β)
    (hf : f t = f (s.tasks k)) (m : ι) : f (s'.tasks m) = f (s.tasks m) := by
  rw [htasks]
  exact update_congr f hf m

omit [DecidableEq τ] in
/-- Whoever lives after a step that drops no task lived before it. -/
theorem live_before {j k : ι} {t : Task ι τ α σ} (hlive : (s'.tasks j).dropped = false)
    (htasks : s'.tasks = Function.update s.tasks k t)
    (ht : t.dropped = (s.tasks k).dropped) : (s.tasks j).dropped = false :=
  (task_congr htasks Task.dropped ht j).symm.trans hlive

omit [DecidableEq τ] in
theorem underWay_congr {i j : ι}
    (hmail : (s'.tasks j).pc.holding ++ s'.mailbox j = (s.tasks j).pc.holding ++ s.mailbox j)
    (hout : (s'.tasks i).pc.outgoingTo j = (s.tasks i).pc.outgoingTo j) :
    underWay sys s' i j = underWay sys s i j := by
  rw [underWay, underWay, hmail, hout]

omit [DecidableEq τ] in
/-- An envelope is put into the mailbox of `a`. -/
theorem underWay_push {a i j : ι} {env : Envelope τ α}
    (hmail : s'.mailbox = Function.update s.mailbox a (s.mailbox a ++ [env]))
    (hhold : (s'.tasks j).pc.holding = (s.tasks j).pc.holding)
    (hout : (s.tasks i).pc.outgoingTo j =
      (if a = j ∧ env.src = sys.name i then [env] else []) ++ (s'.tasks i).pc.outgoingTo j) :
    underWay sys s' i j = underWay sys s i j := by
  rw [underWay, underWay, hhold, hout, hmail, ← List.append_assoc]
  congr 1
  by_cases haj : a = j
  · subst haj
    rw [Function.update_self, ← List.append_assoc, List.filter_append _ [env]]
    congr 1
    by_cases hsrc : env.src = sys.name i
    · simp [hsrc]
    · simp [hsrc]
  · rw [Function.update_of_ne (Ne.symm haj), if_neg (fun h => haj h.1), List.append_nil]

omit [DecidableEq τ] in
/-- A step of one task that moves no envelope. -/
theorem Fifo.task {i j : ι} (h : Fifo sys s i j) (k : ι) {t : Task ι τ α σ}
    (htasks : s'.tasks = Function.update s.tasks k t) (hmail : s'.mailbox = s.mailbox)
    (hd : t.dropped = (s.tasks k).dropped) (hhold : t.pc.holding = (s.tasks k).pc.holding)
    (hout : t.pc.outgoingTo j = (s.tasks k).pc.outgoingTo j)
    (hsent : sentTo s'.events (sys.name i) (sys.name j) =
      sentTo s.events (sys.name i) (sys.name j))
    (hrecv : receivedFrom s'.events (sys.name i) (sys.name j) =
      receivedFrom s.events (sys.name i) (sys.name j)) : Fifo sys s' i j :=
  h.frame hsent hrecv fun hlive =>
    ⟨live_before hlive htasks hd,
      underWay_congr (by rw [hmail, task_congr htasks (fun t => t.pc.holding) hhold j])
        (task_congr htasks (fun t => t.pc.outgoingTo j) hout i)⟩

/-- **Every step keeps the channels**. -/
theorem Fifo.step (hn : Named sys) {l : Label ι α} (hsig : Signed sys s) {i j : ι}
    (h : Fifo sys s i j) (hs : Step sys s l s') : Fifo sys s' i j := by
  cases hs with
  | @start k hd hpc | @number k phase rest addr msg hd hpc | @startedDone k hd hpc
  | @count k phase rest addr env hd hpc =>
    exact h.task k rfl rfl rfl (by rw [hpc]; rfl) (by rw [hpc]; rfl) rfl rfl
  | @handled k hd hpc | @undo k phase rest addr env hd hpc =>
    refine h.task k rfl rfl rfl ?_ ?_ rfl rfl
    · rw [hpc]
      dsimp only
      split <;> rfl
    · rw [hpc]
      dsimp only
      split <;> rfl
  | @wake k phase rest addr env hd hpc | @notify k hd hpc =>
    exact h.task k (s.notifyOne_setPc_tasks k _) s.notifyOne_mailbox rfl (by rw [hpc]; rfl)
      (by rw [hpc]; rfl) (congrArg (sentTo · _ _) s.notifyOne_events)
      (congrArg (receivedFrom · _ _) s.notifyOne_events)
  | @abort k => exact h.task k rfl rfl rfl rfl rfl rfl rfl
  | @compute k phase rest hd hpc =>
    refine h.task k rfl rfl rfl (by rw [hpc]; rfl) (by rw [hpc]; rfl) ?_ ?_
    · exact (sentTo_snoc ..).trans (by simp)
    · exact (receivedFrom_snoc ..).trans (by simp)
  | sendExternal | extCount | call | exit | again | permit | park | join =>
    exact h.frame rfl rfl fun hlive => ⟨hlive, rfl⟩
  | @extRecord k x hk hx =>
    have hworld : "world" ≠ sys.name i := (hn.not_world i).symm
    refine h.frame ?_ ?_ fun hlive => ⟨hlive, rfl⟩
    · exact (sentTo_snoc ..).trans (by simp [emitEvent, hworld])
    · exact (receivedFrom_snoc ..).trans (by simp)
  | extLost => exact h.frame rfl rfl fun hlive => ⟨hlive, rfl⟩
  | @extDeliver k x hk hx hlive =>
    have hsrc : x.env.src ≠ sys.name i := by
      rw [hsig.external x (List.mem_of_getElem? hk)]
      exact (hn.not_world i).symm
    refine h.frame rfl rfl fun hd => ⟨hd, underWay_push rfl rfl ?_⟩
    rw [if_neg fun h => hsrc h.2]
    rfl
  | @emit k phase rest addr msg m hd hpc =>
    have hchannel : (sys.name k = sys.name i ∧ some (sys.name addr) = some (sys.name j)) ↔
        k = i ∧ addr = j := by
      rw [hn.injective.eq_iff, Option.some.injEq, hn.injective.eq_iff]
    refine h.move (if k = i ∧ addr = j then [((s.tasks k).stamps.bump
      (sys.name k)).envelope (sys.name k) m (sys.addr addr) msg] else []) [] ?_ ?_ ?_
      (.inl rfl)
    · refine (sentTo_snoc ..).trans (congrArg (_ ++ ·) ?_)
      by_cases hc : k = i ∧ addr = j
      · rw [if_pos hc, if_pos ⟨rfl, hchannel.mpr hc⟩]
        rfl
      · rw [if_neg hc, if_neg fun h => hc (hchannel.mp h.2)]
        rfl
    · exact (receivedFrom_snoc ..).trans (by simp)
    · intro hlive
      refine ⟨live_before hlive rfl rfl, ?_⟩
      rw [List.nil_append, underWay, underWay, List.append_assoc]
      congr 1
      · congr 2
        exact (task_congr (k := k) rfl (fun t => t.pc.holding) (by rw [hpc]; rfl) j).symm
      · show _ = (Function.update s.tasks k _ i).pc.outgoingTo j
        by_cases hki : k = i
        · subst hki
          rw [Function.update_self, hpc]
          simp [Pc.outgoingTo]
        · rw [Function.update_of_ne (Ne.symm hki), if_neg fun h => hki h.1, List.append_nil]
  | @deliver k phase rest addr env hd hpc hlive =>
    have hsrc : env.src = sys.name k := hsig.tasks k phase rest _ addr env hpc
    refine h.frame rfl rfl fun hd' => ⟨live_before hd' rfl rfl, ?_⟩
    refine underWay_push rfl (task_congr (k := k) rfl (fun t => t.pc.holding)
      (by rw [hpc]; rfl) j) ?_
    by_cases hki : k = i
    · subst hki
      show _ = _ ++ (Function.update s.tasks k _ k).pc.outgoingTo j
      rw [Function.update_self, hpc]
      simp [Pc.outgoingTo, hsrc]
    · have hne : env.src ≠ sys.name i := by
        rw [hsrc]
        exact hn.injective.ne hki
      show _ = _ ++ (Function.update s.tasks k _ i).pc.outgoingTo j
      rw [Function.update_of_ne (Ne.symm hki), if_neg fun h => hne h.2, List.nil_append]
  | @bounce k phase rest addr env hd hpc hgone =>
    refine h.frame rfl rfl fun hd' => ?_
    have hlive : (s.tasks j).dropped = false := live_before hd' rfl rfl
    have haddr : addr ≠ j := by
      rintro rfl
      rw [hgone] at hlive
      cases hlive
    refine ⟨hlive, underWay_congr ?_ (task_congr (k := k) rfl (fun t => t.pc.outgoingTo j) ?_ i)⟩
    · exact congrArg (· ++ s.mailbox j)
        (task_congr (k := k) rfl (fun t => t.pc.holding) (by rw [hpc]; rfl) j)
    · rw [hpc]
      simp [Pc.outgoingTo, haddr]
  | @dequeue k env queue hd hpc hq =>
    refine h.frame rfl rfl fun hd' => ⟨live_before hd' rfl rfl, ?_⟩
    refine underWay_congr ?_ (task_congr (k := k) rfl (fun t => t.pc.outgoingTo j)
      (by rw [hpc]; rfl) i)
    show (Function.update s.tasks k _ j).pc.holding ++ Function.update s.mailbox k queue j = _
    by_cases hkj : j = k
    · subst hkj
      rw [Function.update_self, Function.update_self, hpc, hq]
      rfl
    · rw [Function.update_of_ne hkj, Function.update_of_ne hkj]
  | @receive k env hd hpc =>
    have hout : ∀ m, (Function.update s.tasks k { s.tasks k with
        pc := .body .handling (handleAny sys k (s.tasks k).state env).2
        state := (handleAny sys k (s.tasks k).state env).1
        stamps := (s.tasks k).stamps.receive (sys.name k) env } m).pc.outgoingTo j =
          (s.tasks m).pc.outgoingTo j :=
      update_congr (fun t => t.pc.outgoingTo j) (by rw [hpc]; rfl)
    refine h.move [] (if k = j ∧ env.src = sys.name i then [env] else [])
      ?_ ?_ ?_ ?_
    · exact (sentTo_snoc ..).trans (by simp)
    · refine (receivedFrom_snoc ..).trans (congrArg (_ ++ ·) ?_)
      by_cases hc : k = j ∧ env.src = sys.name i
      · rw [if_pos hc, if_pos ⟨rfl, congrArg sys.name hc.1, congrArg some hc.2⟩]
        rfl
      · rw [if_neg hc, if_neg fun h => hc ⟨hn.injective h.2.1, Option.some.inj h.2.2⟩]
        rfl
    · intro hlive
      refine ⟨live_before hlive rfl rfl, ?_⟩
      rw [List.append_nil, underWay, underWay, ← List.append_assoc]
      congr 1
      · show _ = _ ++ ((Function.update s.tasks k _ j).pc.holding ++ s.mailbox j).filter _
        by_cases hkj : k = j
        · subst hkj
          rw [Function.update_self, hpc, List.filter_append]
          by_cases hsrc : env.src = sys.name i <;> simp [Pc.holding, hsrc]
        · rw [Function.update_of_ne (Ne.symm hkj), if_neg fun h => hkj h.1, List.nil_append]
      · exact (hout i).symm
    · by_cases hkj : k = j
      · subst hkj
        refine .inr ?_
        show (Function.update s.tasks k _ k).dropped = false
        rw [Function.update_self]
        exact hd
      · exact .inl (if_neg fun h => hkj h.1)
  | @panic k | @cancel k =>
    refine h.frame rfl rfl fun hd' => ?_
    have hjk : j ≠ k := by
      rintro rfl
      simp [Config.drop, Config.setTask] at hd'
    have htask : (s.drop k).tasks j = s.tasks j := by
      simp [Config.drop, Config.setTask, Function.update_of_ne hjk]
    refine ⟨htask ▸ hd', underWay_congr ?_ (task_congr (k := k) rfl
      (fun t => t.pc.outgoingTo j) (by rfl) i)⟩
    rw [htask]
    show _ ++ Function.update s.mailbox k [] j = _
    rw [Function.update_of_ne hjk]

/-! ## Runs -/

variable [Fintype ι]

theorem Run.fifo {ls : List (Label ι α)} (hn : Named sys) (h : Run sys ls s) (i j : ι) :
    Fifo sys s i j := by
  refine (Transition.Run.induct (P := fun s => Signed sys s ∧ Fifo sys s i j) ?_ h
    ⟨⟨by simp [Config.init], by simp [Config.init]⟩, .init sys i j⟩).2
  rintro s l s' hstep ⟨hsig, hfifo⟩
  have hs := step_cases sys hstep
  exact ⟨hsig.step hs, hfifo.step hn hsig hs⟩

omit [DecidableEq ι] [DecidableEq τ] in
/-- A channel carries each msg_id once. -/
theorem Issued.sentTo_nodup (h : Issued s) (a b : ActorId) : (sentTo s.events a b).Nodup := by
  refine h.emits_nodup.sublist (List.Sublist.map _ ?_)
  refine List.monotone_filter_right s.events fun e he => ?_
  obtain ⟨hop, -⟩ := of_decide_eq_true he
  exact decide_eq_true hop

/-- **Channels are reliable queues.**  In every run and for any two actors, what the one has received
from the other is what that one sent it first, once and in the order sent; and while the receiver
lives, the rest is under way to it, in order, so nothing is lost. -/
theorem fifo_channels {ls : List (Label ι α)} (hn : Named sys) (h : Run sys ls s) (i j : ι) :
    (sentTo s.events (sys.name i) (sys.name j)).Nodup ∧
    receivedFrom s.events (sys.name i) (sys.name j) <+:
        sentTo s.events (sys.name i) (sys.name j) ∧
      ((s.tasks j).dropped = false → sentTo s.events (sys.name i) (sys.name j) =
        receivedFrom s.events (sys.name i) (sys.name j) ++
          (underWay sys s i j).map fun env => mid env.msgId) := by
  obtain ⟨rest, hrest, hlive⟩ := h.fifo hn i j
  refine ⟨(h.account hn).issued.sentTo_nodup _ _, ⟨rest, hrest.symm⟩, fun hd => ?_⟩
  rw [hrest, hlive hd]

/-- The sink has received the one number the courier passed on. -/
theorem fifo_channels_couriers : ∃ s, Run couriers deliveredRun s ∧
    (receivedFrom s.events "courier" "sink").length = 1 ∧
    sentTo s.events "courier" "sink" = receivedFrom s.events "courier" "sink" := by
  obtain ⟨s, hrun, hlen, hd, hway⟩ : ∃ s, Run couriers deliveredRun s ∧
      (receivedFrom s.events "courier" "sink").length = 1 ∧ (s.tasks false).dropped = false ∧
      underWay couriers s true false = [] := ⟨_, rfl, rfl, rfl, rfl⟩
  have heq := (fifo_channels couriers_named hrun true false).2.2 hd
  rw [hway, List.map_nil, List.append_nil] at heq
  exact ⟨s, hrun, hlen, heq⟩

end Lichtung.Prod
