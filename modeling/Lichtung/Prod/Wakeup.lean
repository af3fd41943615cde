import Lichtung.Prod.Accounting

/-!
# No lost wake-up

The in-flight counter, its `Notify` and the wait loop of `run_until_quiescent`
(`crates/lichtung-prod/src/{shared,system}.rs`) on their own, under any number of tasks that call
`inc_in_flight` and `dec_in_flight` as they like.  `dec_in_flight` is two atomic steps: the
`fetch_sub`, and the `notify_one` that follows when it returned 1.  The loop creates `notified`,
reads the counter, and polls `notified`.  `Notify` follows its contract: `notify_one` wakes the
parked waiter or stores one permit, polling `notified` consumes a permit or parks.

Principal results: `Covered.step` (the loop is parked only while a wake-up is still to come),
`no_lost_wakeup` and `Run.shows` (the runs of the production system are runs of this one).
-/

namespace Lichtung.Prod

open Transition

/-- Where a task stands that uses the counter. -/
inductive Client where
  | idle
  | notifying -- its `fetch_sub` returned 1: about to `notify_one`
  deriving DecidableEq

/-- Where the wait loop stands. -/
inductive Loop where
  | creating -- about to create `notified`
  | reading -- about to read the counter
  | awaiting -- read a non-zero count, about to poll `notified`
  | parked
  | woken -- a wake-up was delivered, not polled again yet
  | exited
  deriving DecidableEq

/-- The counter, the permit and who uses them. -/
structure Shared (T : Type) where
  inFlight : Nat
  permit : Bool
  client : T → Client
  loop : Loop

namespace Shared

variable {T : Type}

def init : Shared T := ⟨0, false, fun _ => .idle, .creating⟩

inductive Label (T : Type) where
  | inc (t : T)
  | sub (t : T)
  | notify (t : T)
  | loop

def notifyOne (w : Shared T) : Shared T :=
  if w.loop = .parked then { w with loop := .woken } else { w with permit := true }

variable [DecidableEq T]

def setClient (w : Shared T) (t : T) (c : Client) : Shared T :=
  { w with client := Function.update w.client t c }

/-- One step of the wait loop. -/
def stepLoop (w : Shared T) : Option (Shared T) :=
  match w.loop with
  | .creating => some { w with loop := .reading }
  | .reading => some { w with loop := if w.inFlight = 0 then .exited else .awaiting }
  | .awaiting =>
    if w.permit then some { w with permit := false, loop := .creating }
    else some { w with loop := .parked }
  | .parked => none
  | .woken => some { w with loop := .creating }
  | .exited => none

/-- One step: `inc_in_flight`, the `fetch_sub` of `dec_in_flight` (which wraps below zero), the
`notify_one` that follows it, or a step of the loop. -/
def step (w : Shared T) : Label T → Option (Shared T)
  | .inc t => if w.client t = .idle then some { w with inFlight := w.inFlight + 1 } else none
  | .sub t =>
    if w.client t = .idle then
      some ({ w with inFlight := if w.inFlight = 0 then 2 ^ 64 - 1 else w.inFlight - 1 }.setClient t
        (if w.inFlight = 1 then .notifying else .idle))
    else none
  | .notify t => if w.client t = .notifying then some (w.notifyOne.setClient t .idle) else none
  | .loop => w.stepLoop

/-- The calls are balanced: no decrement below zero. -/
def InBalance (w : Shared T) : Label T → Prop
  | .sub _ => 0 < w.inFlight
  | _ => True

instance (w : Shared T) : ∀ l : Label T, Decidable (InBalance w l)
  | .sub _ => inferInstanceAs (Decidable (0 < w.inFlight))
  | .inc _ | .notify _ | .loop => inferInstanceAs (Decidable True)

/-- A wake-up is still to come: the counter has to pass zero again, or a `dec_in_flight` that
reached zero has not notified yet. -/
def Coming (w : Shared T) : Prop := 0 < w.inFlight ∨ ∃ t, w.client t = .notifying

/-- The loop parks, and stays parked, only while a wake-up is still to come. -/
structure Covered (w : Shared T) : Prop where
  parked : w.loop = .parked → w.Coming
  awaiting : w.loop = .awaiting → w.permit = true ∨ w.Coming

omit [DecidableEq T] in
theorem Covered.elsewhere {w : Shared T} (hp : w.loop ≠ .parked) (ha : w.loop ≠ .awaiting) :
    Covered w :=
  ⟨fun h => absurd h hp, fun h => absurd h ha⟩

omit [DecidableEq T] in
theorem Covered.coming {w : Shared T} (h : w.Coming) : Covered w := ⟨fun _ => h, fun _ => .inr h⟩

theorem Covered.step {w w' : Shared T} {l : Label T} (h : Covered w) (hbal : InBalance w l)
    (hs : w.step l = some w') : Covered w' := by
  cases l with
  | inc t =>
    simp only [Shared.step, Option.ite_none_right_eq_some, Option.some.injEq] at hs
    obtain ⟨-, rfl⟩ := hs
    exact .coming (.inl (Nat.succ_pos _))
  | sub t =>
    simp only [Shared.step, Option.ite_none_right_eq_some, Option.some.injEq] at hs
    obtain ⟨-, rfl⟩ := hs
    have hpos : 0 < w.inFlight := hbal
    refine .coming ?_
    by_cases h1 : w.inFlight = 1
    · refine .inr ⟨t, ?_⟩
      rw [if_pos h1]
      exact Function.update_self ..
    · refine .inl ?_
      show 0 < if w.inFlight = 0 then 2 ^ 64 - 1 else w.inFlight - 1
      rw [if_neg (by omega)]
      omega
  | notify t =>
    simp only [Shared.step, Option.ite_none_right_eq_some, Option.some.injEq] at hs
    obtain ⟨-, rfl⟩ := hs
    unfold notifyOne
    split
    · exact .elsewhere Loop.noConfusion Loop.noConfusion
    · rename_i hl
      exact ⟨fun hp => absurd hp hl, fun _ => .inl rfl⟩
  | loop =>
    simp only [Shared.step, stepLoop] at hs
    split at hs
    · cases hs
      exact .elsewhere Loop.noConfusion Loop.noConfusion
    · cases hs
      by_cases h0 : w.inFlight = 0
      · rw [if_pos h0]
        exact .elsewhere Loop.noConfusion Loop.noConfusion
      · exact .coming (.inl (Nat.pos_of_ne_zero h0))
    · rename_i hl
      split at hs
      · cases hs
        exact .elsewhere Loop.noConfusion Loop.noConfusion
      · rename_i hp
        cases hs
        exact ⟨fun _ => (h.awaiting hl).resolve_left hp, Loop.noConfusion⟩
    · cases hs
    · cases hs
      exact .elsewhere Loop.noConfusion Loop.noConfusion
    · cases hs

/-- Only a read of zero leaves the loop. -/
theorem exits_on_zero {w w' : Shared T} {l : Label T} (hs : w.step l = some w')
    (hex : w'.loop = .exited) : w.loop = .exited ∨
      (l = .loop ∧ w.loop = .reading ∧ w.inFlight = 0) := by
  cases l with
  | inc t =>
    simp only [Shared.step, Option.ite_none_right_eq_some, Option.some.injEq] at hs
    obtain ⟨-, rfl⟩ := hs
    exact .inl hex
  | sub t =>
    simp only [Shared.step, Option.ite_none_right_eq_some, Option.some.injEq] at hs
    obtain ⟨-, rfl⟩ := hs
    exact .inl hex
  | notify t =>
    simp only [Shared.step, Option.ite_none_right_eq_some, Option.some.injEq] at hs
    obtain ⟨-, rfl⟩ := hs
    unfold notifyOne at hex
    split at hex
    · cases hex
    · exact .inl hex
  | loop =>
    simp only [Shared.step, stepLoop] at hs
    split at hs
    · cases hs
      cases hex
    · rename_i hl
      cases hs
      by_cases h0 : w.inFlight = 0
      · exact .inr ⟨rfl, hl, h0⟩
      · rw [if_neg h0] at hex
        cases hex
    · split at hs <;> cases hs <;> cases hex
    · cases hs
    · cases hs
      cases hex
    · cases hs

/-- The read that a run has left the loop by. -/
theorem exited_of_run : ∀ {ls : List (Label T)} {w w' : Shared T},
    Transition.Run Shared.step w ls w' → w'.loop = .exited → w.loop ≠ .exited →
      ∃ pre post w₀, ls = pre ++ .loop :: post ∧ Transition.Run Shared.step w pre w₀ ∧
        w₀.loop = .reading ∧ w₀.inFlight = 0
  | [], _, _, h, hex, hne => by cases h; exact absurd hex hne
  | l :: ls, w, _, h, hex, hne => by
    obtain ⟨w₁, h1, h2⟩ := Run.cons_iff.mp h
    by_cases hex₁ : w₁.loop = .exited
    · obtain ⟨rfl, hl, h0⟩ := (exits_on_zero h1 hex₁).resolve_left hne
      exact ⟨[], ls, w, rfl, .nil w, hl, h0⟩
    · obtain ⟨pre, post, w₀, rfl, hpre, hl, h0⟩ := exited_of_run h2 hex hex₁
      exact ⟨l :: pre, post, w₀, rfl, .cons h1 hpre, hl, h0⟩

/-- **No lost wake-up.**  However the tasks and the loop interleave, the loop is never parked with
neither a wake-up nor a permit outstanding while the counter is 0 and every `dec_in_flight` has
returned; and it has exited only after reading 0. -/
theorem no_lost_wakeup {ls : List (Label T)} {w : Shared T}
    (h : Transition.Run Shared.step .init ls w) (hbal : Along Shared.step InBalance ls .init) :
    ¬ (w.loop = .parked ∧ w.permit = false ∧ w.inFlight = 0 ∧ ∀ t, w.client t = .idle) ∧
    (w.loop = .exited → ∃ pre post w₀, ls = pre ++ .loop :: post ∧
      Transition.Run Shared.step .init pre w₀ ∧ w₀.loop = .reading ∧ w₀.inFlight = 0) := by
  have hcov : Covered w :=
    Run.induct_along (fun hb hs hc => Covered.step hc hb hs) h hbal
      (.elsewhere Loop.noConfusion Loop.noConfusion)
  refine ⟨?_, fun hex => exited_of_run h hex Loop.noConfusion⟩
  rintro ⟨hpark, -, h0, hidle⟩
  rcases hcov.parked hpark with hpos | ⟨t, ht⟩
  · omega
  · rw [hidle t] at ht
    cases ht

/-- The counter reaches zero between the loop's read and its park. -/
def crossing : List (Label Unit) :=
  [.inc (), .loop, .loop, .sub (), .loop, .notify (), .loop, .loop, .loop]

theorem no_lost_wakeup_crossing : ∃ w, Transition.Run Shared.step .init crossing w ∧
    w.loop = .exited ∧ ¬ (w.loop = .parked ∧ w.permit = false ∧ w.inFlight = 0 ∧
      ∀ t, w.client t = .idle) := by
  obtain ⟨w, hrun, hex⟩ : ∃ w, Transition.Run Shared.step .init crossing w ∧ w.loop = .exited :=
    ⟨_, rfl, rfl⟩
  refine ⟨w, hrun, hex, (no_lost_wakeup hrun ?_).1⟩
  -- the one decrement meets a counter of 1
  repeat refine (Run.along_cons rfl).mpr ⟨by decide, ?_⟩
  exact fun pre l post w₀ heq _ => by simp at heq

end Shared

/-! ## The production system uses the counter so -/

variable {ι τ α σ : Type} [DecidableEq ι] [DecidableEq τ] {sys : Topology ι τ α σ}
  {s s' : Config ι τ α σ}

/-- Where the wait loop stands while the runner is there.  A woken loop goes round to its read. -/
def Runner.Shows : Runner → Loop → Prop
  | .building, l => l = .creating
  | .polling, l => l = .creating ∨ l = .reading ∨ l = .woken
  | .awaiting, l => l = .awaiting
  | .parked, l => l = .parked
  | .exited, l | .done, l => l = .exited

/-- The system as its counter sees it: the tasks, and `send_external` (`none`), which never
decrements. -/
structure Shows (s : Config ι τ α σ) (w : Shared (Option ι)) : Prop where
  inFlight : w.inFlight = s.inFlight
  permit : w.permit = s.permit
  tasks : ∀ i, w.client (some i) = if (s.tasks i).pc.wakes then .notifying else .idle
  external : w.client none = .idle
  loop : s.runner.Shows w.loop

omit [DecidableEq ι] [DecidableEq τ] in
/-- A step that does not touch the counter. -/
theorem Shows.frame {w : Shared (Option ι)} (h : Shows s w) (hin : s'.inFlight = s.inFlight)
    (hp : s'.permit = s.permit) (hpc : ∀ i, (s'.tasks i).pc.wakes = (s.tasks i).pc.wakes)
    (hr : ∀ l, s.runner.Shows l → s'.runner.Shows l) : Shows s' w where
  inFlight := h.inFlight.trans hin.symm
  permit := h.permit.trans hp.symm
  tasks := fun i => by rw [hpc]; exact h.tasks i
  external := h.external
  loop := hr _ h.loop

/-- A run in balance that ends as the system stands. -/
def Matched (w : Shared (Option ι)) (s' : Config ι τ α σ) : Prop :=
  ∃ ls w', Transition.Run Shared.step w ls w' ∧ Along Shared.step Shared.InBalance ls w ∧
    Shows s' w'

omit [DecidableEq τ] in
theorem Shows.matched {w : Shared (Option ι)} (h : Shows s w) : Matched w s :=
  ⟨[], w, .nil w, fun pre l post w₀ heq _ => by simp at heq, h⟩

omit [DecidableEq τ] in
/-- One step of the counter, then those that follow. -/
theorem Matched.head {w w₁ : Shared (Option ι)} {l : Shared.Label (Option ι)}
    (h : w.step l = some w₁) (hbal : Shared.InBalance w l) (hm : Matched w₁ s) : Matched w s := by
  obtain ⟨ls, w', hrun, halong, hs⟩ := hm
  exact ⟨l :: ls, w', .cons h hrun, (Run.along_cons h).mpr ⟨hbal, halong⟩, hs⟩

omit [DecidableEq τ] in
/-- The clients after a step of task `i`. -/
theorem Shows.tasks_update {w : Shared (Option ι)} (h : Shows s w) {i : ι} {t : Task ι τ α σ}
    {c : Client} (hc : c = if t.pc.wakes then .notifying else .idle) (j : ι) :
    Function.update w.client (some i) c (some j) =
      if (Function.update s.tasks i t j).pc.wakes then .notifying else .idle := by
  by_cases hij : j = i
  · subst hij
    rw [Function.update_self, Function.update_self, hc]
  · rw [Function.update_of_ne (fun he => hij (Option.some.inj he)), Function.update_of_ne hij]
    exact h.tasks j

omit [DecidableEq ι] [DecidableEq τ] in
theorem Shows.idle {w : Shared (Option ι)} (h : Shows s w) {i : ι}
    (hpc : (s.tasks i).pc.wakes = false) : w.client (some i) = .idle := by
  rw [h.tasks, hpc]
  rfl

omit [DecidableEq τ] in
/-- A step of task `i` neither to nor from a `notify_one`. -/
theorem wakes_update {i : ι} {t : Task ι τ α σ} (ht : t.pc.wakes = (s.tasks i).pc.wakes) (j : ι) :
    (Function.update s.tasks i t j).pc.wakes = (s.tasks j).pc.wakes := by
  by_cases hij : j = i
  · subst hij
    rw [Function.update_self, ht]
  · rw [Function.update_of_ne hij]

omit [DecidableEq τ] in
/-- A step of task `i` that does not touch the counter. -/
theorem Shows.task {w : Shared (Option ι)} (h : Shows s w) {i : ι} {t : Task ι τ α σ}
    (htasks : s'.tasks = Function.update s.tasks i t) (hpc : (s.tasks i).pc.wakes = false)
    (ht : t.pc.wakes = false) (hin : s'.inFlight = s.inFlight) (hp : s'.permit = s.permit)
    (hr : s'.runner = s.runner) : Matched w s' := by
  refine Shows.matched (h.frame hin hp (fun j => ?_) fun l hl => by rw [hr]; exact hl)
  rw [htasks]
  exact wakes_update (ht.trans hpc.symm) j

omit [DecidableEq τ] in
/-- `inc_in_flight`. -/
theorem Shows.incInFlight {w : Shared (Option ι)} (h : Shows s w) {x : Option ι}
    (hx : w.client x = .idle) (hin : s'.inFlight = s.inFlight + 1) (hp : s'.permit = s.permit)
    (hr : s'.runner = s.runner) (hpc : ∀ i, (s'.tasks i).pc.wakes = (s.tasks i).pc.wakes) :
    Matched w s' := by
  refine Matched.head (l := .inc x) (if_pos hx) trivial (Shows.matched ?_)
  refine ⟨?_, h.permit.trans hp.symm, fun i => by rw [hpc]; exact h.tasks i, h.external, ?_⟩
  · show w.inFlight + 1 = s'.inFlight
    rw [hin, h.inFlight]
  · rw [hr]
    exact h.loop

omit [DecidableEq τ] in
/-- The `fetch_sub` of `dec_in_flight`. -/
theorem Shows.fetchSub {w : Shared (Option ι)} (h : Shows s w) {i : ι}
    (hpc : (s.tasks i).pc.wakes = false) (hpos : 0 < s.inFlight) {pc : Pc ι τ α}
    (hwakes : pc.wakes = decide (s.inFlight = 1)) : Matched w (s.fetchSub.setPc i pc) := by
  refine Matched.head (l := .sub (some i)) (if_pos (h.idle hpc)) ?_ (Shows.matched ?_)
  · show 0 < w.inFlight
    rw [h.inFlight]
    exact hpos
  · refine ⟨?_, h.permit, fun j => ?_, ?_, h.loop⟩
    · show (if w.inFlight = 0 then 2 ^ 64 - 1 else w.inFlight - 1) = s.fetchSub.inFlight
      rw [h.inFlight]
      rfl
    · refine h.tasks_update (t := { s.tasks i with pc := pc }) ?_ j
      rw [hwakes, h.inFlight]
      by_cases h1 : s.inFlight = 1 <;> simp [h1]
    · show Function.update w.client (some i) (if w.inFlight = 1 then .notifying else .idle) none =
        .idle
      rw [Function.update_of_ne (by simp)]
      exact h.external

omit [DecidableEq ι] [DecidableEq τ] in
theorem Shows.parked_iff {w : Shared (Option ι)} (h : Shows s w) :
    w.loop = .parked ↔ s.runner = .parked := by
  have hl := h.loop
  cases hr : s.runner with
  | polling =>
    rw [hr] at hl
    rcases hl with hl | hl | hl <;> rw [hl] <;> simp
  | building | awaiting | parked | exited | done =>
    rw [hr] at hl
    rw [show w.loop = _ from hl]
    simp

omit [DecidableEq τ] in
/-- The `notify_one` that follows it. -/
theorem Shows.notifyOne {w : Shared (Option ι)} (h : Shows s w) {i : ι}
    (hpc : (s.tasks i).pc.wakes = true) {pc : Pc ι τ α} (hwakes : pc.wakes = false) :
    Matched w (s.notifyOne.setPc i pc) := by
  have hclient : w.client (some i) = .notifying := by
    rw [h.tasks, hpc]
    rfl
  refine Matched.head (l := .notify (some i)) (if_pos hclient) trivial (Shows.matched ?_)
  have htasks : ∀ j, Function.update w.client (some i) Client.idle (some j) =
      if (Function.update s.tasks i { s.tasks i with pc := pc } j).pc.wakes then .notifying
      else .idle := h.tasks_update (by rw [hwakes]; rfl)
  have hexternal : Function.update w.client (some i) Client.idle none = .idle := by
    rw [Function.update_of_ne (by simp)]
    exact h.external
  unfold Config.notifyOne Shared.notifyOne
  by_cases hp : s.runner = .parked
  · rw [if_pos hp, if_pos (h.parked_iff.mpr hp)]
    exact ⟨h.inFlight, h.permit, htasks, hexternal, .inr (.inr rfl)⟩
  · rw [if_neg hp, if_neg fun hl => hp (h.parked_iff.mp hl)]
    exact ⟨h.inFlight, rfl, htasks, hexternal, h.loop⟩

omit [DecidableEq τ] in
/-- A polling runner is about to read the counter, after going round the loop. -/
theorem Shows.read {w : Shared (Option ι)} (h : Shows s w) (hr : s.runner = .polling)
    (hm : ∀ w, Shows s w → w.loop = .reading → Matched w s') : Matched w s' := by
  have hread : ∀ w, Shows s w → w.loop = .creating → Matched w s' := by
    intro w hw hl
    have hstep : w.step .loop = some { w with loop := .reading } := by
      simp only [Shared.step, Shared.stepLoop, hl]
    refine Matched.head hstep trivial (hm _ ⟨hw.inFlight, hw.permit, hw.tasks, hw.external, ?_⟩ rfl)
    rw [hr]
    exact .inr (.inl rfl)
  have hl := h.loop
  rw [hr] at hl
  rcases hl with hl | hl | hl
  · exact hread w h hl
  · exact hm w h hl
  · have hstep : w.step .loop = some { w with loop := .creating } := by
      simp only [Shared.step, Shared.stepLoop, hl]
    refine Matched.head hstep trivial (hread _ ⟨h.inFlight, h.permit, h.tasks, h.external, ?_⟩ rfl)
    rw [hr]
    exact .inl rfl

/-- **Every step of the system is matched by steps of its counter, in balance.** -/
theorem Shows.step [Fintype ι] {w : Shared (Option ι)} {l : Label ι α} {k : Nat} (h : Shows s w)
    (hb : Balanced s k) (hs : Step sys s l s') : Matched w s' := by
  cases hs with
  | @start i hd hpc | @compute i _ _ hd hpc | @number i _ _ _ _ hd hpc | @startedDone i hd hpc
  | @emit i _ _ _ _ _ hd hpc | @deliver i _ _ _ _ hd hpc _ | @bounce i _ _ _ _ hd hpc _
  | @dequeue i _ _ hd hpc _ | @receive i _ hd hpc =>
    exact h.task (i := i) rfl (by rw [hpc]; rfl) rfl rfl rfl rfl
  | @handled i hd hpc =>
    refine h.fetchSub (by rw [hpc]; rfl) (hb.pos i (by simp [hd, hpc])) ?_
    by_cases h1 : s.inFlight = 1 <;> simp [h1, Pc.wakes]
  | @undo i _ _ _ _ hd hpc =>
    refine h.fetchSub (by rw [hpc]; rfl) (hb.pos i (by simp [hd, hpc])) ?_
    by_cases h1 : s.inFlight = 1 <;> simp [h1, Pc.wakes]
  | @count i phase rest addr env hd hpc =>
    refine h.incInFlight (h.idle (i := i) (by rw [hpc]; rfl)) rfl rfl rfl ?_
    have hnext : false = (s.tasks i).pc.wakes := by rw [hpc]; rfl
    exact wakes_update (s := s) hnext
  | @wake i _ _ _ _ hd hpc => exact h.notifyOne (by rw [hpc]; rfl) rfl
  | @notify i hd hpc => exact h.notifyOne (by rw [hpc]; rfl) rfl
  | @panic i _ _ hd hpc => exact h.task (i := i) rfl (by rw [hpc]; rfl) (by rw [hpc]; rfl) rfl rfl rfl
  | @cancel i ha hd hpc =>
    have hpc : (s.tasks i).pc.wakes = false := by rcases hpc with hpc | hpc <;> rw [hpc] <;> rfl
    exact h.task (i := i) rfl hpc hpc rfl rfl rfl
  | @abort i hr =>
    exact Shows.matched (h.frame rfl rfl (wakes_update rfl) fun _ hl => hl)
  | sendExternal | extRecord | extDeliver | extLost =>
    exact Shows.matched (h.frame rfl rfl (fun _ => rfl) fun _ hl => hl)
  | extCount => exact h.incInFlight h.external rfl rfl rfl fun _ => rfl
  | call hr =>
    refine Shows.matched (h.frame rfl rfl (fun _ => rfl) fun l hl => ?_)
    rw [hr] at hl
    exact .inl hl
  | join hr =>
    refine Shows.matched (h.frame rfl rfl (fun _ => rfl) fun l hl => ?_)
    rw [hr] at hl
    exact hl
  | exit hr h0 =>
    refine h.read hr fun w hw hl => ?_
    have hstep : w.step .loop = some { w with loop := .exited } := by
      simp only [Shared.step, Shared.stepLoop, hl, hw.inFlight, h0, if_true]
    refine Matched.head hstep trivial (Shows.matched ?_)
    exact ⟨hw.inFlight, hw.permit, hw.tasks, hw.external, rfl⟩
  | again hr h0 =>
    refine h.read hr fun w hw hl => ?_
    have hstep : w.step .loop = some { w with loop := .awaiting } := by
      simp only [Shared.step, Shared.stepLoop, hl, hw.inFlight, if_neg h0]
    refine Matched.head hstep trivial (Shows.matched ?_)
    exact ⟨hw.inFlight, hw.permit, hw.tasks, hw.external, rfl⟩
  | permit hr hp =>
    have hl := h.loop
    rw [hr] at hl
    have hstep : w.step .loop = some { w with permit := false, loop := .creating } := by
      simp only [Shared.step, Shared.stepLoop, show w.loop = .awaiting from hl, h.permit, hp, if_true]
    refine Matched.head hstep trivial (Shows.matched ?_)
    exact ⟨h.inFlight, rfl, h.tasks, h.external, .inl rfl⟩
  | park hr hp =>
    have hl := h.loop
    rw [hr] at hl
    have hstep : w.step .loop = some { w with loop := .parked } := by
      simp only [Shared.step, Shared.stepLoop, show w.loop = .awaiting from hl, h.permit, hp,
        Bool.false_eq_true, if_false]
    refine Matched.head hstep trivial (Shows.matched ?_)
    exact ⟨h.inFlight, h.permit.trans rfl, h.tasks, h.external, rfl⟩

omit [DecidableEq ι] [DecidableEq τ] in
theorem Shows.init (sys : Topology ι τ α σ) : Shows (Config.init sys) Shared.init :=
  ⟨rfl, rfl, fun _ => rfl, rfl, rfl⟩

/-- **What the production system does with the counter is a run of it, in balance.** -/
theorem Run.shows [Fintype ι] {ls : List (Label ι α)} (h : Run sys ls s) :
    Matched Shared.init s := by
  have hboth : (∃ k, Balanced s k) ∧ Matched Shared.init s := by
    refine Transition.Run.induct
      (P := fun s : Config ι τ α σ => (∃ k, Balanced s k) ∧ Matched Shared.init s) ?_ h
      ⟨⟨0, .init sys⟩, (Shows.init sys).matched⟩
    rintro s l s' hstep ⟨⟨k, hb⟩, ls, w, hrun, halong, hshows⟩
    have hs := step_cases sys hstep
    obtain ⟨ls', w', hrun', halong', hshows'⟩ := hshows.step hb hs
    refine ⟨⟨_, hb.step hs⟩, ls ++ ls', w', Run.append_iff.mpr ⟨w, hrun, hrun'⟩, ?_, hshows'⟩
    exact Transition.Run.along_append hrun halong halong'
  exact hboth.2

end Lichtung.Prod
