import Lichtung.Prod.Bounds
import Lichtung.Prod.Durability
import Lichtung.Prod.Quiescence
import Lichtung.Prod.Reproduction

/-!
# The production system and its log writer

`System::new` spawns the log writer on the channel that every `SharedRuntime::record` sends into, and
`run_until_quiescent` ends by dropping the last sender and awaiting the writer.  A step is one of the
system, a turn of the writer task, the drop of the last sender, or the end of that wait.  An event
recorded after the writer has returned is dropped with its send.

Principal results: `Kept.step` (what is recorded is held by the writer, unless it failed),
`nothing_lost`, `crash_leaves_a_run` and `log_file_replays`.
-/

namespace Lichtung.Prod

open Transition

/-- A `System` with the writer task it spawned, and what `run_until_quiescent` returned. -/
structure Pipeline (ι τ α σ W : Type) where
  system : Config ι τ α σ
  writer : LogWriter W
  result : Option (Except LogError Nat)

namespace Pipeline

variable {ι τ α σ W : Type}

/-- `System::new`, and the actors spawned. -/
def init (sys : Topology ι τ α σ) (w : W) : Pipeline ι τ α σ W := ⟨.init sys, .init w, none⟩

inductive Label (ι α : Type) where
  | system (l : Prod.Label ι α)
  /-- A turn of the writer task. -/
  | writer
  /-- The tasks are joined: `run_until_quiescent` drops the last `SharedRuntime`. -/
  | close
  /-- `writer.await` returns. -/
  | join

/-- The steps of the system among those taken. -/
def Label.ofSystem : Label ι α → Option (Prod.Label ι α)
  | .system l => some l
  | _ => none

section Step

variable [DecidableEq ι] [DecidableEq τ] [Fintype ι] (sys : Topology ι τ α σ) (json : SerdeJson)
  (sink : Sink W) (cap : Nat) (s : Pipeline ι τ α σ W)

/-- `SharedRuntime::record`: a send to a writer that is gone drops the event. -/
def record (w : LogWriter W) (ev : CausalEvent) : LogWriter W :=
  (w.step json sink cap (.send ev)).getD w

/-- One step of the system and its writer. -/
def step : Label ι α → Option (Pipeline ι τ α σ W)
  | .system l => (Prod.step sys s.system l).map fun c =>
      { s with
        system := c
        writer := (c.events.drop s.system.events.length).foldl (record json sink cap) s.writer }
  | .writer => (s.writer.step json sink cap .turn).map fun w => { s with writer := w }
  | .close =>
    if s.system.runner = .done then
      (s.writer.step json sink cap .close).map fun w => { s with writer := w }
    else none
  | .join =>
    match s.result, s.writer.pc with
    | none, .done r => if s.writer.closed then some { s with result := some r } else none
    | _, _ => none

/-- A run from the start, into the sink `w`. -/
def Run (w : W) (ls : List (Label ι α)) (s : Pipeline ι τ α σ W) : Prop :=
  Transition.Run (step sys json sink cap) (init sys w) ls s

end Step

/-! ## The steps, one by one -/

section Spec

variable [DecidableEq ι] [DecidableEq τ] [Fintype ι] {sys : Topology ι τ α σ} {json : SerdeJson}
  {sink : Sink W} {contents : W → List UInt8} {cap : Nat} {s s' : Pipeline ι τ α σ W}

theorem record_open {w : LogWriter W} (hc : w.closed = false) (hpc : w.pc.returned = false)
    (ev : CausalEvent) :
    record json sink cap w ev = { w with queue := w.queue ++ [ev] } := by
  simp [record, LogWriter.step, hc, hpc]

theorem record_returned {w : LogWriter W} (hpc : w.pc.returned = true) (ev : CausalEvent) :
    record json sink cap w ev = w := by
  simp [record, LogWriter.step, hpc]

/-- Everything `step` can do. -/
inductive Step (sys : Topology ι τ α σ) (json : SerdeJson) (sink : Sink W) (cap : Nat)
    (s : Pipeline ι τ α σ W) : Label ι α → Pipeline ι τ α σ W → Prop
  | quiet {l : Prod.Label ι α} {c : Config ι τ α σ} (hs : Prod.Step sys s.system l c)
      (hev : c.events = s.system.events) :
      Step sys json sink cap s (.system l) { s with system := c }
  | event {l : Prod.Label ι α} {c : Config ι τ α σ} {ev : CausalEvent}
      (hs : Prod.Step sys s.system l c) (hev : c.events = s.system.events ++ [ev]) :
      Step sys json sink cap s (.system l)
        { s with system := c, writer := record json sink cap s.writer ev }
  | writer {w : LogWriter W} (h : s.writer.step json sink cap .turn = some w) :
      Step sys json sink cap s .writer { s with writer := w }
  | close (hr : s.system.runner = .done) :
      Step sys json sink cap s .close { s with writer := { s.writer with closed := true } }
  | join {r : Except LogError Nat} (hr : s.result = none) (hpc : s.writer.pc = .done r)
      (hc : s.writer.closed = true) : Step sys json sink cap s .join { s with result := some r }

omit [Fintype ι] in
theorem records_snoc {s s' : Config ι τ α σ} (h : Records sys s s') :
    s'.events = s.events ∨ ∃ e, s'.events = s.events ++ [e] := by
  cases h with
  | nothing hev => exact .inl hev
  | compute _ _ _ _ _ _ hev | emit _ _ _ _ _ _ _ _ _ _ _ hev | recv _ _ _ _ _ hev
  | world _ _ _ hev => exact .inr ⟨_, hev⟩

theorem step_cases {l : Label ι α} (h : step sys json sink cap s l = some s') :
    Step sys json sink cap s l s' := by
  cases l with
  | system l =>
    obtain ⟨c, hc, rfl⟩ := Option.map_eq_some_iff.mp h
    have hs := Prod.step_cases sys hc
    rcases records_snoc hs.records with hev | ⟨e, hev⟩
    · rw [hev, List.drop_length, List.foldl_nil]
      exact .quiet hs hev
    · rw [hev, List.drop_left, List.foldl_cons, List.foldl_nil]
      exact .event hs hev
  | writer =>
    obtain ⟨w, hw, rfl⟩ := Option.map_eq_some_iff.mp h
    exact .writer hw
  | close =>
    simp only [step] at h
    split at h
    · rename_i hr
      obtain ⟨w, hw, rfl⟩ := Option.map_eq_some_iff.mp h
      simp only [LogWriter.step] at hw
      split at hw
      · cases hw
      · cases hw
        exact .close hr
    · cases h
  | join =>
    simp only [step] at h
    split at h
    · rename_i r hres hpc
      split at h
      · cases h
        exact .join hres hpc ‹_›
      · cases h
    · cases h

/-- The steps of the system, without the writer's, are a run of the system. -/
theorem run_system : ∀ {ls : List (Label ι α)} {s s' : Pipeline ι τ α σ W},
    Transition.Run (step sys json sink cap) s ls s' →
      Transition.Run (Prod.step sys) s.system (ls.filterMap Label.ofSystem) s'.system
  | [], _, _, h => by cases h; exact .nil _
  | l :: ls, s, s', h => by
    obtain ⟨s₁, h1, h2⟩ := Run.cons_iff.mp h
    have hrest := run_system h2
    cases l with
    | system l =>
      obtain ⟨c, hc, rfl⟩ := Option.map_eq_some_iff.mp h1
      exact .cons hc hrest
    | writer | close | join =>
      have hsame : s₁.system = s.system := by
        cases step_cases h1
        rfl
      rw [← hsame]
      exact hrest

/-! ## What holds in every state -/

/-- Once the tasks are joined they are gone. -/
def Joined (c : Config ι τ α σ) : Prop := c.runner = .done → ∀ i, (c.tasks i).dropped = true

omit [DecidableEq ι] [DecidableEq τ] [Fintype ι] in
theorem notifyOne_done {c : Config ι τ α σ} : c.notifyOne.runner = .done ↔ c.runner = .done := by
  unfold Config.notifyOne
  split
  · rename_i hr
    simp [hr]
  · exact Iff.rfl

omit [Fintype ι] in
/-- The system does nothing once its tasks are joined. -/
theorem no_step_of_done {c c' : Config ι τ α σ} {l : Prod.Label ι α} (hs : Prod.Step sys c l c')
    (hj : Joined c) (hx : c.runner ≠ .building → c.external = []) : c.runner ≠ .done := by
  intro hr
  have hd := hj hr
  have hext : c.external = [] := hx (by rw [hr]; simp)
  have hgone : ∀ {i}, (c.tasks i).dropped = false → False := fun h => by
    rw [hd] at h
    cases h
  cases hs with
  | start h | compute h | number h | startedDone h | handled h | emit h | count h | deliver h
  | bounce h | undo h | wake h | dequeue h | receive h | notify h | panic h => exact hgone h
  | cancel _ h => exact hgone h
  | extRecord hk | extCount hk | extDeliver hk | extLost hk => rw [hext] at hk; cases hk
  | abort h | sendExternal h | call h | exit h | again h | permit h | park h | join h =>
    rw [hr] at h
    cases h

omit [Fintype ι] in
theorem Joined.step {c c' : Config ι τ α σ} {l : Prod.Label ι α} (hs : Prod.Step sys c l c')
    (hne : c.runner ≠ .done) : Joined c' := by
  intro hr
  cases hs with
  | wake | notify => exact absurd (notifyOne_done.mp hr) hne
  | join _ hall => exact hall
  | call | exit | again | permit | park => cases hr
  | _ => exact absurd hr hne

/-- What holds in every reachable state: the channel closes after the tasks are joined, the writer
holds every recorded event unless it failed, and it returns its count only when the channel is
closed. -/
structure Kept (json : SerdeJson) (contents : W → List UInt8) (s : Pipeline ι τ α σ W) : Prop where
  joined : Joined s.system
  closed : s.writer.closed = true → s.system.runner = .done
  held : s.writer.pc.failed ∨ s.writer.Holds json contents s.system.events
  counted : ∀ n, s.writer.pc = .done (.ok n) → s.writer.closed = true
  result : ∀ r, s.result = some r → s.writer.pc = .done r

omit [DecidableEq ι] [DecidableEq τ] [Fintype ι] in
theorem Kept.init (sys : Topology ι τ α σ) {w : W} (hw : contents w = []) :
    Kept json contents (init sys w) where
  joined := fun hr => by cases hr
  closed := fun hc => by cases hc
  held := .inr (.init hw)
  counted := fun n hn => by cases hn
  result := fun r hr => by cases hr

omit [DecidableEq ι] [DecidableEq τ] [Fintype ι] in
variable (sink cap) in
/-- A writer that neither failed nor is closed takes the next event. -/
theorem Kept.recorded (h : Kept json contents s) (hr : s.system.runner ≠ .done)
    (ev : CausalEvent) : (record json sink cap s.writer ev).closed = s.writer.closed ∧
      (record json sink cap s.writer ev).pc = s.writer.pc ∧
      (s.writer.pc.failed ∨ (record json sink cap s.writer ev).Holds json contents
        (s.system.events ++ [ev])) := by
  have hopen : s.writer.closed = false := by
    by_contra hc
    exact hr (h.closed (by simpa using hc))
  cases hret : s.writer.pc.returned with
  | true =>
    rw [record_returned hret]
    obtain ⟨r, hpc⟩ := LogWriter.Pc.returned_iff.mp hret
    refine ⟨rfl, rfl, .inl ?_⟩
    cases r with
    | error err => rw [hpc]; trivial
    | ok n => rw [h.counted n hpc] at hopen; cases hopen
  | false =>
    rw [record_open hopen hret]
    exact ⟨rfl, rfl, h.held.imp_right fun hh => hh.change (.send hret)⟩

/-- **What is recorded is held by the writer, unless it failed.** -/
theorem Kept.step (hjson : json.Lawful) (hsink : sink.Honest contents) (h : Kept json contents s)
    {l : Label ι α} (hsound : Sound sys s.system) (hs : Step sys json sink cap s l s') :
    Kept json contents s' := by
  cases hs with
  | @quiet l c hs hev =>
    have hne := no_step_of_done hs h.joined hsound.called
    refine ⟨Joined.step hs hne, fun hc => absurd (h.closed hc) hne, ?_,
      h.counted, h.result⟩
    rw [hev]
    exact h.held
  | @event l c ev hs hev =>
    have hne := no_step_of_done hs h.joined hsound.called
    obtain ⟨hclosed, hpc, hheld⟩ := h.recorded sink cap hne ev
    refine ⟨Joined.step hs hne, ?_, ?_, ?_, ?_⟩
    · intro hc
      exact absurd (h.closed (hclosed ▸ hc)) hne
    · rw [hev, hpc]
      exact hheld
    · intro n hn
      rw [hclosed]
      exact h.counted n (hpc ▸ hn)
    · intro r hr
      rw [hpc]
      exact h.result r hr
  | @writer w hw =>
    refine ⟨h.joined, fun hc => h.closed (LogWriter.turn_closed hw ▸ hc), ?_,
      fun n hn => LogWriter.turn_returned hw hn, fun r hr => ?_⟩
    · rcases LogWriter.turn_honest hjson hsink hw with hc | hfailed
      · refine .inr ?_
        rcases h.held with hfailed | hh
        · obtain ⟨r, hpc⟩ := LogWriter.Pc.returned_iff.mp (LogWriter.Pc.returned_of_failed hfailed)
          cases (LogWriter.turn_of_done hpc).symm.trans hw
        · simpa [LogWriter.sent] using hh.change hc
      · exact .inl hfailed
    · cases (LogWriter.turn_of_done (h.result r hr)).symm.trans hw
  | close hr =>
    refine ⟨h.joined, fun _ => hr, ?_, fun _ _ => rfl, h.result⟩
    exact h.held.imp_right fun hh => by simpa [LogWriter.sent] using hh.change .close
  | join hr hpc hc =>
    refine ⟨h.joined, h.closed, h.held, h.counted, fun r hr' => ?_⟩
    cases hr'
    exact hpc

/-! ## Runs -/

/-- The system steps on with its writer beside it. -/
theorem lift (json : SerdeJson) (sink : Sink W) (cap : Nat) :
    ∀ {ls : List (Prod.Label ι α)} {s : Pipeline ι τ α σ W} {c : Config ι τ α σ},
    Transition.Run (Prod.step sys) s.system ls c →
      ∃ s', Transition.Run (step sys json sink cap) s (ls.map .system) s' ∧ s'.system = c ∧
        s'.result = s.result
  | [], s, _, h => by
    cases h
    exact ⟨s, .nil s, rfl, rfl⟩
  | l :: ls, s, c, h => by
    obtain ⟨c₁, h1, h2⟩ := Run.cons_iff.mp h
    obtain ⟨s₁, hs₁, hsys, hres⟩ : ∃ s₁, step sys json sink cap s (.system l) = some s₁ ∧
        s₁.system = c₁ ∧ s₁.result = s.result := by
      rw [step, h1, Option.map_some]
      exact ⟨_, rfl, rfl, rfl⟩
    obtain ⟨s', hrun, hsys', hres'⟩ := lift json sink cap (hsys ▸ h2)
    exact ⟨s', .cons hs₁ hrun, hsys', hres'.trans hres⟩

variable {w : W} {ls : List (Label ι α)}

theorem Run.kept (hjson : json.Lawful) (hsink : sink.Honest contents) (hw : contents w = [])
    (h : Run sys json sink cap w ls s) : Kept json contents s := by
  refine (Transition.Run.induct (P := fun s => Sound sys s.system ∧ Kept json contents s) ?_ h
    ⟨.init sys, .init sys hw⟩).2
  intro s l s' hstep hk
  have hs := step_cases hstep
  refine ⟨?_, hk.2.step hjson hsink hk.1 hs⟩
  cases hs with
  | quiet hs | event hs => exact hk.1.step hs
  | writer | close | join => exact hk.1

omit [DecidableEq ι] [DecidableEq τ] [Fintype ι] in
theorem record_pc (w : LogWriter W) (ev : CausalEvent) :
    (record json sink cap w ev).pc = w.pc := by
  simp only [record, LogWriter.step]
  split <;> rfl

/-- Over a sink without errors the writer never fails. -/
theorem Run.live (hjson : json.Lawful) (hsink : sink.NoError contents)
    (h : Run sys json sink cap w ls s) : ¬ s.writer.pc.failed := by
  refine Transition.Run.induct (P := fun s => ¬ s.writer.pc.failed) ?_ h id
  intro s l s' hstep hlive
  cases step_cases hstep with
  | quiet | close | join => exact hlive
  | event => rwa [record_pc]
  | writer hw =>
    cases LogWriter.turn_spec hjson hsink hw with
    | write | flush | finish => exact id

/-- The writer takes its turns with the system beside it. -/
theorem lift_turns : ∀ {k : Nat} {s : Pipeline ι τ α σ W} {lw : LogWriter W},
    Transition.Run (LogWriter.step json sink cap) s.writer (List.replicate k .turn) lw →
      Transition.Run (step sys json sink cap) s (List.replicate k .writer)
        { s with writer := lw }
  | 0, s, _, h => by
    cases h
    exact .nil s
  | k + 1, s, lw, h => by
    obtain ⟨w₁, h1, h2⟩ := Run.cons_iff.mp h
    have hstep : step sys json sink cap s .writer = some { s with writer := w₁ } := by
      rw [step, h1, Option.map_some]
    exact .cons hstep (lift_turns (s := { s with writer := w₁ }) h2)

/-- Once the tasks are joined the runner closes the channel and gets the writer's count. -/
theorem completes_of_done (hjson : json.Lawful) (hsink : sink.NoError contents)
    (hdone : s.system.runner = .done) (hres : s.result = none) :
    ∃ ls' s' r, Transition.Run (step sys json sink cap) s ls' s' ∧
      ls'.filterMap Label.ofSystem = [] ∧ s'.system = s.system ∧ s'.result = some r := by
  obtain ⟨pre, s₁, hpre, hnone, hsys, hres1, hclosed⟩ : ∃ pre s₁,
      Transition.Run (step sys json sink cap) s pre s₁ ∧ pre.filterMap Label.ofSystem = [] ∧
        s₁.system = s.system ∧ s₁.result = none ∧ s₁.writer.closed = true := by
    by_cases hc : s.writer.closed = true
    · exact ⟨[], s, .nil s, rfl, rfl, hres, hc⟩
    · refine ⟨[.close], { s with writer := { s.writer with closed := true } },
        .cons ?_ (.nil _), rfl, rfl, hres, rfl⟩
      simp [step, hdone, LogWriter.step, hc]
  obtain ⟨k, lw, hturns, hret⟩ : ∃ k lw, Transition.Run (LogWriter.step json sink cap) s₁.writer
      (List.replicate k .turn) lw ∧ lw.pc.returned = true :=
    LogWriter.finishes hjson hsink _ le_rfl hclosed
  obtain ⟨r, hr⟩ := LogWriter.Pc.returned_iff.mp hret
  have hopen : lw.closed = true := by
    refine Transition.Run.induct_on (P := fun w => w.closed = true)
      (fun {_ l _} (hl : l = .turn) hstep hc => ?_) hturns
      (fun l hl => List.eq_of_mem_replicate hl) hclosed
    subst hl
    exact (LogWriter.turn_closed hstep).trans hc
  have hjoin : step sys json sink cap { s₁ with writer := lw } .join =
      some { s₁ with writer := lw, result := some r } := by
    simp only [step, hres1, hr, hopen, if_true]
  refine ⟨pre ++ (List.replicate k .writer ++ [.join]),
    { s₁ with writer := lw, result := some r }, r, ?_, ?_, hsys, rfl⟩
  · exact Run.append_iff.mpr ⟨s₁, hpre, Run.append_iff.mpr ⟨_, lift_turns hturns,
      .cons hjoin (.nil _)⟩⟩
  · simp [List.filterMap_append, hnone, Label.ofSystem]

theorem Run.system (h : Run sys json sink cap w ls s) :
    Prod.Run sys (ls.filterMap Label.ofSystem) s.system :=
  run_system h

/-- Every beginning of the log is the log of a beginning of the run. -/
theorem log_cut {ls : List (Prod.Label ι α)} {c : Config ι τ α σ} (h : Prod.Run sys ls c)
    {log : List CausalEvent} (hcut : log <+: c.events) :
    ∃ pre post c₀, ls = pre ++ post ∧ Prod.Run sys pre c₀ ∧ c₀.events = log :=
  Transition.Run.cut (fun hstep => records_snoc (Prod.step_cases sys hstep).records) h
    (List.nil_prefix ..) hcut

omit [DecidableEq ι] [DecidableEq τ] [Fintype ι] in
/-- `Ok(n)` is the count of what was recorded, all of it in the sink. -/
theorem Kept.returned (hk : Kept json contents s) {n : Nat} (hr : s.result = some (.ok n)) :
    s.system.runner = .done ∧ n = s.system.events.length ∧
      contents s.writer.bw.inner = logBytes json s.system.events := by
  have hpc := hk.result _ hr
  refine ⟨hk.closed (hk.counted n hpc), ?_⟩
  refine LogWriter.Holds.returned (hk.held.resolve_left fun hfailed => ?_) hpc
  rw [hpc] at hfailed
  exact hfailed

/-- **No recorded event is lost without an error.**  Whatever the sink does, as long as what it
reports written is appended: where `run_until_quiescent` returns `Ok(n)`, the run recorded exactly
`n` events, no task can act any more, the sink holds their lines and nothing else, and `read_events`
gives them back in order. -/
theorem nothing_lost (hjson : json.Lawful) (hsink : sink.Honest contents) (hw : contents w = [])
    (h : Run sys json sink cap w ls s) {n : Nat} (hr : s.result = some (.ok n)) :
    n = s.system.events.length ∧ (∀ l, step sys json sink cap s (.system l) = none) ∧
      contents s.writer.bw.inner = logBytes json s.system.events ∧
      (n < 2 ^ 64 → readEvents json (contents s.writer.bw.inner) = .ok s.system.events) := by
  have hk := h.kept hjson hsink hw
  obtain ⟨hdone, hn, hsink⟩ := hk.returned hr
  refine ⟨hn, fun l => ?_, hsink, fun hlen => ?_⟩
  · rw [step, Option.map_eq_none_iff]
    by_contra hstep
    obtain ⟨c, hc⟩ := Option.ne_none_iff_exists'.mp hstep
    exact no_step_of_done (Prod.step_cases sys hc) hk.joined h.system.sound.called hdone
  · rw [hsink]
    exact readEvents_logBytes hjson (h.system.encodable (hn ▸ hlen))

omit [DecidableEq ι] [DecidableEq τ] in
/-- At rest every msg_id handed out is on a recorded emit. -/
theorem msgId_le {c : Config ι τ α σ} (h : Issued c)
    (hidle : ∀ i, (c.tasks i).pc.idle) (hx : c.external = []) : c.msgId ≤ c.events.length := by
  have htasks : total (issued ι τ α σ).task c.tasks = 0 := by
    refine total_eq_zero fun i => ?_
    have := hidle i
    simp only [issued]
    split
    · rename_i hpc
      rw [hpc] at this
      exact this.elim
    · rfl
  have hmail : total (issued ι τ α σ).mail c.mailbox = 0 := total_eq_zero fun _ => rfl
  have hcard := congrArg Multiset.card h
  simp only [Config.load, htasks, hmail, hx, List.map_nil, List.sum_nil, add_zero,
    Multiset.card_map, recordedKeys, Multiset.coe_card, List.length_map, List.length_range'] at hcard
  rw [← hcard]
  exact List.length_filter_le ..

/-- The origin is handled, the lone actor cancelled and joined. -/
def closedRun : List (Prod.Label Unit Nat) :=
  servedRun ++ [.runner, .abort (), .cancel (), .runner]

/-- A run of the system to its end is the start of one that returns. -/
theorem returns_of_run (cap : Nat) (hjson : json.Lawful) (hsink : sink.NoError contents)
    (hw : contents w = []) {ls : List (Prod.Label ι α)} {c : Config ι τ α σ}
    (h : Prod.Run sys ls c) (hdone : c.runner = .done) :
    ∃ ls' s, Run sys json sink cap w ls' s ∧ ls'.filterMap Label.ofSystem = ls ∧ s.system = c ∧
      s.result = some (.ok c.events.length) := by
  obtain ⟨s₁, hrun, rfl, hres⟩ := lift json sink cap
    (s := init sys w) h
  obtain ⟨ls', s, r, hrun', hnone, hsys, hr⟩ := completes_of_done hjson hsink hdone hres
  have hlabels : (ls.map Label.system ++ ls').filterMap Label.ofSystem = ls := by
    rw [List.filterMap_append, hnone, List.append_nil, List.filterMap_map]
    exact List.filterMap_some
  have hall : Run sys json sink cap w (ls.map .system ++ ls') s :=
    Transition.Run.append_iff.mpr ⟨s₁, hrun, hrun'⟩
  have hk := hall.kept hjson hsink.honest hw
  cases r with
  | error err =>
    refine absurd ?_ (hall.live hjson hsink)
    rw [hk.result _ hr]
    trivial
  | ok n =>
    obtain ⟨-, rfl, -⟩ := hk.returned hr
    exact ⟨_, s, hall, hlabels, hsys, hsys ▸ hr⟩

theorem nothing_lost_lone : ∃ ls s, Run lone compactJson listSink 8192 [] ls s ∧
    s.result = some (.ok 2) ∧ readEvents compactJson s.writer.bw.inner = .ok s.system.events := by
  obtain ⟨c, hrun, hdone, hlen⟩ : ∃ c : Config Unit Unit Nat Unit, Prod.Run lone closedRun c ∧
      c.runner = .done ∧ c.events.length = 2 := ⟨_, rfl, rfl, rfl⟩
  obtain ⟨ls, s, hall, -, -, hr⟩ := returns_of_run 8192 compactJson_lawful
    listSink_noError (show id ([] : List UInt8) = [] from rfl) hrun hdone
  rw [hlen] at hr
  exact ⟨_, s, hall, hr, (nothing_lost compactJson_lawful listSink_noError.honest rfl hall hr).2.2.2
    (by omega)⟩

/-- **A crash leaves the log of an earlier moment of the run.**  Stop anywhere before the writer has
failed, also amid a write, which leaves the file with a beginning of what was to be written.  Its
whole lines, without the torn one at its end, are the log of a state the run went through; once the
writer waits on an empty channel they are all that was recorded.  They read back, and with at most
one `send_external` `replay_log` accepts them. -/
theorem crash_leaves_a_run (hjson : json.Lawful) (hsink : sink.Honest contents)
    (hw : contents w = []) (h : Run sys json sink cap w ls s) (hn : Named sys)
    (hlive : ¬ s.writer.pc.failed) (hlen : s.system.events.length < 2 ^ 64) :
    contents s.writer.bw.inner <+: logBytes json s.system.events ∧
    ∀ bs, contents s.writer.bw.inner <+: bs → bs <+: logBytes json s.system.events →
      ∃ pre post c, ls.filterMap Label.ofSystem = pre ++ post ∧ Prod.Run sys pre c ∧
        c.events <+: s.system.events ∧ readEvents json (Lines.whole bs) = .ok c.events ∧
        (s.writer.pc = .recv → s.writer.queue = [] → c.events = s.system.events) ∧
        ((ls.filterMap Label.ofSystem).countP Prod.Label.injects ≤ 1 →
          ∃ r, replayLog c.events = .ok r) := by
  have hheld := (h.kept hjson hsink hw).held.resolve_left hlive
  obtain ⟨hstored, hwaiting⟩ := hheld.stored
  refine ⟨hstored, fun bs hfile hbs => ?_⟩
  obtain ⟨k, torn, htorn, -, hwhole⟩ := cut_logBytes hjson hbs
  obtain ⟨pre, post, c, hls, hrun, hc⟩ := log_cut h.system (List.take_prefix k s.system.events)
  have hle : c.events <+: s.system.events := hc ▸ List.take_prefix ..
  have hback : readEvents json (Lines.whole bs) = .ok c.events := by
    rw [hwhole, ← hc]
    exact readEvents_logBytes hjson (hrun.encodable (hle.length_le.trans_lt hlen))
  refine ⟨pre, post, c, hls, hrun, hle, hback, fun hpc hq => ?_, fun h1 => ?_⟩
  · obtain ⟨taken, hev, hbytes⟩ := hwaiting hpc
    rw [hq, List.append_nil] at hev
    rw [hbytes, ← hev] at hfile
    rw [hbs.eq_of_length_le hfile.length_le, whole_logBytes,
      readEvents_logBytes hjson (h.system.encodable hlen)] at hback
    exact (Except.ok.inj hback).symm
  · have hacc := hrun.account hn
    have horigins := hrun.origins hn
    rw [hls, List.countP_append] at h1
    exact replayLog_ok_iff.mpr (hacc.accepted (by omega))

theorem crash_leaves_a_run_lone : ∃ ls s, ∃ c : Config Unit Unit Nat Unit,
    Run lone compactJson listSink 8192 [] ls s ∧ s.system.events.length = 2 ∧
    readEvents compactJson (Lines.whole s.writer.bw.inner) = .ok c.events ∧
    ∃ r, replayLog c.events = .ok r := by
  obtain ⟨c, hrun, hlen⟩ : ∃ c : Config Unit Unit Nat Unit,
      Prod.Run lone dyingRun c ∧ c.events.length = 2 := ⟨_, rfl, rfl⟩
  obtain ⟨s, hall, rfl, -⟩ := lift compactJson listSink 8192
    (s := init lone []) hrun
  obtain ⟨hfile, hcut⟩ := crash_leaves_a_run compactJson_lawful listSink_noError.honest rfl hall
    lone_named (Run.live compactJson_lawful listSink_noError hall) (by omega)
  obtain ⟨-, -, c, -, -, -, hread, -, hok⟩ := hcut _ (List.prefix_refl _) hfile
  exact ⟨_, s, c, hall, hlen, hread, hok (by decide)⟩

/-- **The log file of a run replays.**  Take a run with at most one `send_external` that returned
`Ok(n)` with every `started` and every handler run to its end.  `read_events` of its file gives a
log that the same actors, given the same origin, replay without divergences. -/
theorem log_file_replays (hjson : json.Lawful) (hsink : sink.Honest contents)
    (hw : contents w = []) (h : Run sys json sink cap w ls s) (hn : Named sys) {n : Nat}
    (hr : s.result = some (.ok n)) (hlen : n < 2 ^ 64)
    (h1 : (ls.filterMap Label.ofSystem).countP Prod.Label.injects ≤ 1)
    (hidle : ∀ i, (s.system.tasks i).pc.idle) {rs : ReplaySystem τ α σ} (hrs : Rebuilds sys rs)
    (ho : rs.origins = (ls.filterMap Label.ofSystem).filterMap (Label.origin sys)) :
    ∃ log out, readEvents json (contents s.writer.bw.inner) = .ok log ∧ log.length = n ∧
      rs.replay log = .ok out ∧ out.divergences = [] := by
  obtain ⟨hdone, hcount, hbytes⟩ := (h.kept hjson hsink hw).returned hr
  have hsound := h.system.sound
  have hm : s.system.msgId < 2 ^ 64 := by
    have := msgId_le hsound.issued hidle (hsound.called (by rw [hdone]; simp))
    omega
  have hread : readEvents json (contents s.writer.bw.inner) = .ok s.system.events := by
    rw [hbytes]
    exact readEvents_logBytes hjson (h.system.encodable (hcount ▸ hlen))
  obtain ⟨r, d, hrun, hnone⟩ := h.system.replayed hn h1 hidle hm (List.Perm.refl _) hrs ho
  exact ⟨_, _, hread, hcount.symm, replay_of_run hrun, hnone⟩

theorem log_file_replays_couriers : ∃ ls s log out,
    Run couriers compactJson listSink 8192 [] ls s ∧
    readEvents compactJson s.writer.bw.inner = .ok log ∧ log.length = 4 ∧
    ((couriers.respawn [false, true]).origin (couriers.addr true) 7).replay log = .ok out ∧
    out.divergences = [] := by
  obtain ⟨c, hrun, hdone, hlen, hidle⟩ : ∃ c : Config Bool Unit Nat Unit,
      Prod.Run couriers closedDelivery c ∧ c.runner = .done ∧ c.events.length = 4 ∧
        ∀ i, (c.tasks i).pc.idle := by
    refine ⟨_, rfl, rfl, rfl, fun i => ?_⟩
    cases i <;> trivial
  obtain ⟨ls, s, hall, hlabels, rfl, hr⟩ := returns_of_run 8192 compactJson_lawful
    listSink_noError (show id ([] : List UInt8) = [] from rfl) hrun hdone
  have hrs : Rebuilds couriers (couriers.respawn [false, true]) :=
    rebuilds_of_respawn couriers_named (by decide)
  rw [hlen] at hr
  obtain ⟨log, out, hread, hcount, hout, hnone⟩ := log_file_replays compactJson_lawful
    listSink_noError.honest rfl hall couriers_named hr (by omega) (by rw [hlabels]; decide) hidle
    (hrs.origin (couriers.addr true) 7) (by rw [hlabels]; rfl)
  exact ⟨ls, s, log, out, hall, hread, hcount, hout, hnone⟩

end Spec

end Pipeline

end Lichtung.Prod
