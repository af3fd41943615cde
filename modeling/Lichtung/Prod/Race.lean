import Lichtung.Prod.Arrivals

/-!
# The race example

Model of `crates/lichtung-replay/examples/emit_race_viz.rs`: an importer hands its number to a fast
and a slow worker, which race to one exporter, and `main` retries until it has recorded a run in
which the fast one came first.  A run has one of two outcomes, by who came first, and whichever
attempt is captured the viz data are the same.

Principal result: `race_settled`.
-/

namespace Lichtung.Prod.Race

open Transition

inductive Role where
  | importer
  | computeFast
  | computeSlow
  | exporter
  deriving DecidableEq

instance : Fintype Role :=
  ⟨{.importer, .computeFast, .computeSlow, .exporter}, fun r => by cases r <;> decide⟩

def handle : Role → UInt32 → List (Action Role UInt32)
  | .importer, n => [.send .computeFast n, .send .computeSlow n]
  | .computeFast, n => [.compute, .send .exporter n]
  | .computeSlow, n => [.compute, .compute, .compute, .compute, .send .exporter n]
  | .exporter, _ => [.compute]

def name : Role → ActorId
  | .importer => "import"
  | .computeFast => "compute-fast"
  | .computeSlow => "compute-slow"
  | .exporter => "export"

/-- The system `try_once` builds. -/
def system : Topology Role Unit UInt32 Unit where
  name := name
  actor role := ⟨(), fun st => (st, []), fun st n => (st, handle role n)⟩
  init _ := ()

/-- `export_recvs[0]` came from the fast worker and `export_recvs[1]` from the slow one. -/
def fastFirst : List CausalEvent → Bool
  | a :: b :: _ => a.src = some "compute-fast" ∧ b.src = some "compute-slow"
  | _ => false

/-- `try_once` on the events it has read: `none` where it panics, for a log that is refused. -/
def tryOnce (events : List CausalEvent) : Option (Option Replayed) :=
  match replayLog events with
  | .error _ => none
  | .ok replayed =>
    let exportRecvs := (replayed.timeline.filter fun e => e.actor = "export" ∧ e.op = .recv)
    if fastFirst (exportRecvs.insertionSort fun a b => a.seq ≤ b.seq) then some (some replayed)
    else some none

theorem named : Named system := ⟨by decide, by decide⟩

def wire : Role → Role → Prop
  | .importer, .computeFast | .importer, .computeSlow | .computeFast, .exporter
  | .computeSlow, .exporter => True
  | _, _ => False

theorem wired : Wired system wire fun _ _ => True where
  init := fun _ => trivial
  started := fun _ _ _ => ⟨trivial, fun addr msg hmem => by cases hmem⟩
  handle := by
    rintro role st n -
    refine ⟨trivial, fun addr msg hmem => ?_⟩
    change _ ∈ handle role n at hmem
    cases role with
    | importer =>
      simp only [handle, List.mem_cons, Action.send.injEq, List.not_mem_nil, or_false] at hmem
      obtain ⟨rfl, -⟩ | ⟨rfl, -⟩ := hmem <;> trivial
    | computeFast | computeSlow =>
      simp only [handle, List.mem_cons, reduceCtorEq, Action.send.injEq, List.not_mem_nil, or_false,
        false_or] at hmem
      obtain ⟨rfl, -⟩ := hmem
      trivial
    | exporter => simp [handle] at hmem

theorem silent : SilentStart system := by
  rintro i a ha
  cases ha

/-! ## Who hears from whom -/

section Complete

variable {n : UInt32}

variable (n) in
/-- What the importer receives. -/
def imported : List (Envelope Unit UInt32) := [worldEnvelope system 0 .importer n]

variable (n) in
/-- What a worker receives. -/
def handed (worker : Role) : List (Envelope Unit UInt32) :=
  (Line.respond system .importer (imported n)).sent.filter (·.dst = name worker)

theorem intake_importer : Intake system wire .importer n .importer (imported n) :=
  .entry fun role => by cases role <;> exact id

theorem intake_worker {worker : Role} (h : worker = .computeFast ∨ worker = .computeSlow) :
    Intake system wire .importer n worker (handed n worker) := by
  refine .next intake_importer (fun role hrole => ?_) ?_
  · rcases h with rfl | rfl <;> cases role <;> first | rfl | exact absurd hrole id
  · rcases h with rfl | rfl <;> decide

variable {ls : List (Label Role UInt32)} {s : Config Role Unit UInt32 Unit}
  {L : Role → Line Role Unit UInt32 Unit}

/-- Each worker sends the exporter one message. -/
theorem one_from_worker {worker : Role} (hworker : worker = .computeFast ∨ worker = .computeSlow)
    (h : Run system ls s) (hL : Performed system ls s L) (ho : OneOrigin ls .importer n)
    (hc : Complete s L) :
    ((L .exporter).received.filter (·.src = name worker)).length = 1 := by
  have hline := (hL.received_of_intake named wired h ho (intake_worker hworker)).2 hc
  have hsent := Line.Path.sent_eq (hL.played.path worker) (hc.calls _)
  rw [hline] at hsent
  have hchannel := (hL.channel named h .exporter worker).2 hc.received
  have hfilter : ((L worker).sent.filter (·.dst = name .exporter)).length =
      (((L worker).sent.map (·.unnumbered)).filter (·.dst = name .exporter)).length := by
    rw [List.filter_map, List.length_map]
    rfl
  refine (congrArg List.length hchannel).trans (hfilter.trans ?_)
  rw [hsent]
  rcases hworker with rfl | rfl <;> rfl

/-- The exporter hears from no one else. -/
theorem from_worker (h : Run system ls s) (hL : Performed system ls s L)
    (ho : OneOrigin ls .importer n) :
    ∀ env ∈ (L .exporter).received, env.src = "compute-fast" ∨ env.src = "compute-slow" := by
  intro env henv
  obtain ⟨-, hsent⟩ := h.wired named wired
  obtain ⟨hdst, ⟨role, hrole, e, he, hactor, hop, hto⟩ | ⟨⟨m, addr, msg, hl, rfl⟩, -⟩⟩ :=
    hL.emit_of_received (h.account named) henv
  · have hsrc := (Line.Path.shown (hL.played.path role)).signed env hrole
    obtain ⟨role', hrole', hwire⟩ := hsent role e he hactor hop
    obtain rfl : .exporter = role' := named.injective (Option.some.inj (hto.symm.trans hrole'))
    cases role with
    | computeFast => exact .inl hsrc
    | computeSlow => exact .inr hsrc
    | importer | exporter => exact absurd hwire id
  · obtain ⟨rfl, -⟩ := ho.origin addr msg hl
    exact absurd hdst (by decide : name .importer ≠ name .exporter)

/-- Two things, each there once. -/
theorem eq_pair {β : Type} [DecidableEq β] {l : List β} {a b : β} (hab : a ≠ b)
    (hall : ∀ x ∈ l, x = a ∨ x = b) (ha : l.count a = 1) (hb : l.count b = 1) :
    l = [a, b] ∨ l = [b, a] := by
  have hperm : l.Perm [a, b] := by
    refine List.perm_iff_count.mpr fun x => ?_
    by_cases hxa : x = a
    · subst hxa
      simp [ha, hab.symm]
    by_cases hxb : x = b
    · subst hxb
      simp [hb, hab]
    · rw [List.count_eq_zero.mpr fun hx => (hall x hx).elim hxa hxb]
      simp [Ne.symm hxa, Ne.symm hxb]
  obtain ⟨x, y, rfl⟩ := List.length_eq_two.mp hperm.length_eq
  rcases hall x (by simp) with rfl | rfl <;> rcases hall y (by simp) with rfl | rfl
  · simp [hab] at hb
  · exact .inl rfl
  · exact .inr rfl
  · simp [hab.symm] at ha

/-- Who came first, and who second. -/
theorem arrivals_export (h : Run system ls s) (hL : Performed system ls s L)
    (ho : OneOrigin ls .importer n) (hc : Complete s L) :
    arrivals s.events "export" = [some "compute-fast", some "compute-slow"] ∨
      arrivals s.events "export" = [some "compute-slow", some "compute-fast"] := by
  have hcount : ∀ worker : Role, worker = .computeFast ∨ worker = .computeSlow →
      ((L .exporter).received.map (·.src)).count (name worker) = 1 := by
    intro worker hworker
    rw [← one_from_worker hworker h hL ho hc, List.count_eq_countP, List.countP_map,
      List.countP_eq_length_filter]
    rfl
  have hall : ∀ x ∈ (L .exporter).received.map (·.src), x = "compute-fast" ∨ x = "compute-slow" := by
    intro x hx
    obtain ⟨env, henv, rfl⟩ := List.mem_map.mp hx
    exact from_worker h hL ho env henv
  have hsenders : arrivals s.events "export" = ((L .exporter).received.map (·.src)).map some := by
    rw [List.map_map]
    exact hL.played.arrivals_eq .exporter
  rw [hsenders]
  rcases eq_pair (by decide) hall (hcount .computeFast (.inl rfl))
    (hcount .computeSlow (.inr rfl)) with heq | heq
  · rw [heq]
    exact .inl rfl
  · rw [heq]
    exact .inr rfl

end Complete

/-! ## Rounds -/

/-- A round of `try_once`: its one origin brings `n` to the importer, and the run returns. -/
structure Round (n : UInt32) (ls : List (Label Role UInt32)) (s : Config Role Unit UInt32 Unit) :
    Prop where
  run : Run system ls s
  quiet : ∀ l ∈ ls, l.quiet
  joined : s.runner = .done
  origin : OneOrigin ls .importer n
  count : ls.countP Label.injects = 1

section Rounds

variable {n : UInt32} {ls ls' : List (Label Role UInt32)} {s s' : Config Role Unit UInt32 Unit}

theorem Round.outcome (h : Round n ls s) :
    arrivals s.events "export" = [some "compute-fast", some "compute-slow"] ∨
      arrivals s.events "export" = [some "compute-slow", some "compute-fast"] := by
  obtain ⟨L, hL⟩ := h.run.performed named
  obtain ⟨hc, -⟩ := hL.complete named silent h.run h.quiet h.joined h.count
  exact arrivals_export h.run hL h.origin hc

/-- The one sender each actor but the exporter hears from. -/
def sender : Role → ActorId
  | .importer => "world"
  | _ => "import"

theorem Round.arrivals_eq (h : Round n ls s) {role : Role} (hrole : role ≠ .exporter) :
    arrivals s.events (name role) = [some (sender role)] := by
  obtain ⟨L, hL⟩ := h.run.performed named
  obtain ⟨hc, -⟩ := hL.complete named silent h.run h.quiet h.joined h.count
  have hintake : ∀ {role us}, Intake system wire .importer n role us →
      arrivals s.events (name role) = us.map fun env => some env.src := fun hi =>
    hL.arrivals_of_intake named wired h.run h.origin hc hi
  cases role with
  | importer => exact hintake intake_importer
  | computeFast => exact hintake (intake_worker (.inl rfl))
  | computeSlow => exact hintake (intake_worker (.inr rfl))
  | exporter => exact absurd rfl hrole

theorem Round.paused (h : Round n ls s) : Paused s := by
  refine h.run.paused named silent h.quiet h.joined h.count fun role hnone => ?_
  by_cases hrole : role = .exporter
  · subst hrole
    change arrivals s.events "export" = [] at hnone
    rcases h.outcome with heq | heq <;> simp [heq] at hnone
  · change arrivals s.events (name role) = [] at hnone
    simp [h.arrivals_eq hrole] at hnone

/-- The recvs of the exporter, as `try_once` sorts them. -/
theorem Round.exportRecvs_eq (h : Round n ls s) {r : Replayed} (hr : replayLog s.events = .ok r) :
    (r.timeline.filter fun e => e.actor = "export" ∧ e.op = .recv).insertionSort
        (fun a b => a.seq ≤ b.seq) =
      (s.events.filter (·.actor = "export")).filter (·.op = .recv) := by
  obtain ⟨L, hL⟩ := h.run.performed named
  have hseqs := (Line.Path.consistent (hL.played.path .exporter)).pairwise
  rw [hL.played.events .exporter] at hseqs
  refine (KeyOrder.eq_insertionSort (hseqs.filter _) ?_).symm
  have hfilter : (s.events.filter (·.actor = "export")).filter (·.op = .recv) =
      s.events.filter fun e => e.actor = "export" ∧ e.op = .recv := by
    rw [List.filter_filter]
    exact List.filter_congr fun e _ => by simp [Bool.and_comm]
  exact hfilter ▸ ((timeline_spec hr).1.filter _).symm

/-- Of two recvs the first is from the fast worker, or the second is. -/
theorem fastFirst_eq {recvs : List CausalEvent}
    (h : recvs.map (·.src) = [some "compute-fast", some "compute-slow"] ∨
      recvs.map (·.src) = [some "compute-slow", some "compute-fast"]) :
    fastFirst recvs = decide (recvs.map (·.src) = [some "compute-fast", some "compute-slow"]) := by
  obtain ⟨a, b, rfl⟩ : ∃ a b, recvs = [a, b] := by
    refine List.length_eq_two.mp ?_
    rcases h with h | h <;> simpa using congrArg List.length h
  simp [fastFirst]

/-- A round never panics, and is captured exactly when the fast worker came first. -/
theorem Round.tryOnce_eq (h : Round n ls s) : ∃ r, replayLog s.events = .ok r ∧
    tryOnce s.events = some (if arrivals s.events "export" =
      [some "compute-fast", some "compute-slow"] then some r else none) := by
  obtain ⟨r, hr⟩ := replayLog_ok_iff.mpr (h.run.accepted named h.origin.count (.refl _))
  refine ⟨r, hr, ?_⟩
  have hfirst : fastFirst ((s.events.filter (·.actor = "export")).filter (·.op = .recv)) =
      decide (arrivals s.events "export" = [some "compute-fast", some "compute-slow"]) :=
    fastFirst_eq h.outcome
  simp only [tryOnce, hr, h.exportRecvs_eq hr, hfirst]
  by_cases hfast : arrivals s.events "export" = [some "compute-fast", some "compute-slow"]
  · rw [if_pos hfast, if_pos (decide_eq_true hfast)]
  · rw [if_neg hfast, if_neg (by simp [hfast])]

/-- **The race has two outcomes.**  In every round the exporter hears once from each worker.  The
round is captured exactly when the fast one came first, and its log never fails to replay.  Any two
captured rounds have the same timeline, msg_ids apart, and the same poset. -/
theorem race_settled (h : Round n ls s) :
    (arrivals s.events "export" = [some "compute-fast", some "compute-slow"] ∨
      arrivals s.events "export" = [some "compute-slow", some "compute-fast"]) ∧
    (∃ r, replayLog s.events = .ok r ∧ tryOnce s.events = some (if arrivals s.events "export" =
      [some "compute-fast", some "compute-slow"] then some r else none)) ∧
    ∀ {ls' s' r r'}, Round n ls' s' → tryOnce s.events = some (some r) →
      tryOnce s'.events = some (some r') →
        r.timeline.map (·.unnumbered) = r'.timeline.map (·.unnumbered) ∧
        r.posetJson.events = r'.posetJson.events ∧
        ∀ x ∈ r.posetJson.events, ∀ y ∈ r.posetJson.events, x ≠ y →
          (r.posetJson.Before x y ↔ r'.posetJson.Before x y) ∧
            r.posetJson.listings x y = r'.posetJson.listings x y := by
  refine ⟨h.outcome, h.tryOnce_eq, fun {ls' s' r r'} h' hcapture hcapture' => ?_⟩
  have hcaptured : ∀ {ls s r}, Round n ls s → tryOnce s.events = some (some r) →
      arrivals s.events "export" = [some "compute-fast", some "compute-slow"] ∧
        replayLog s.events = .ok r := by
    intro ls s r h hcapture
    obtain ⟨r₀, hr, heq⟩ := h.tryOnce_eq
    rw [hcapture] at heq
    have heq := Option.some.inj heq
    split at heq
    · next hfast =>
      cases heq
      exact ⟨hfast, hr⟩
    · cases heq
  obtain ⟨hfast, hr⟩ := hcaptured h hcapture
  obtain ⟨hfast', hr'⟩ := hcaptured h' hcapture'
  refine h.run.replayed_alike named h'.run h.origin h'.origin h.paused h'.paused
    (fun role => ?_) hr hr'
  by_cases hrole : role = .exporter
  · subst hrole
    exact hfast.trans hfast'.symm
  · exact (h.arrivals_eq hrole).trans (h'.arrivals_eq hrole).symm

end Rounds

/-- `n` operations of one task. -/
def turns (n : Nat) (role : Role) : List (Label Role UInt32) := List.replicate n (.task role)

/-- A round in which the workers take their turns in the given order. -/
def roundRun (workers : List Role) : List (Label Role UInt32) :=
  turns 2 .exporter ++ turns 2 .computeFast ++ turns 2 .computeSlow ++ turns 2 .importer ++
    [.sendExternal .importer 1, .external 0, .external 0, .external 0] ++ turns 11 .importer ++
    workers.map .task ++ turns 9 .exporter ++ [.runner, .runner] ++
    [.exporter, .computeFast, .computeSlow, .importer].map .abort ++
    [.exporter, .computeFast, .computeSlow, .importer].map .cancel ++ [.runner]

/-- The fast worker is through before the slow one starts. -/
def fastRun : List (Label Role UInt32) :=
  roundRun (List.replicate 8 .computeFast ++ List.replicate 11 .computeSlow)

/-- The slow worker has its msg_id first, and is overtaken before it delivers. -/
def overtakingRun : List (Label Role UInt32) :=
  roundRun (List.replicate 7 .computeSlow ++ List.replicate 8 .computeFast ++
    List.replicate 4 .computeSlow)

theorem round_of_run {workers : List Role} {s : Config Role Unit UInt32 Unit}
    (h : Run system (roundRun workers) s) (hdone : s.runner = .done) :
    Round 1 (roundRun workers) s := by
  have hcount : (roundRun workers).countP Label.injects = 1 := by
    have hworkers : (workers.map .task : List (Label Role UInt32)).countP Label.injects = 0 := by
      simp [Label.injects]
    simp only [roundRun, List.countP_append, hworkers]
    decide
  refine ⟨h, ?_, hdone, ⟨hcount.le, ?_⟩, hcount⟩
  · intro l hl
    cases l with
    | panic role => simp [roundRun, turns] at hl
    | _ => trivial
  · simp [roundRun, turns]

/-- In two captured rounds the fast worker's message has another msg_id. -/
theorem race_settled_rounds : ∃ s s' r r', Round 1 fastRun s ∧ Round 1 overtakingRun s' ∧
    receivedFrom s.events "compute-fast" "export" = [some "m4"] ∧
    receivedFrom s'.events "compute-fast" "export" = [some "m5"] ∧
    tryOnce s.events = some (some r) ∧ tryOnce s'.events = some (some r') ∧
    r.timeline.map (·.unnumbered) = r'.timeline.map (·.unnumbered) := by
  have hfast : (Transition.exec (step system) fastRun (.init system)).map (fun s => (s.runner,
      receivedFrom s.events "compute-fast" "export", arrivals s.events "export")) =
      some (.done, [some "m4"], [some "compute-fast", some "compute-slow"]) := by decide +kernel
  have hover : (Transition.exec (step system) overtakingRun (.init system)).map (fun s => (s.runner,
      receivedFrom s.events "compute-fast" "export", arrivals s.events "export")) =
      some (.done, [some "m5"], [some "compute-fast", some "compute-slow"]) := by decide +kernel
  obtain ⟨s, hrun, heq⟩ := Option.map_eq_some_iff.mp hfast
  obtain ⟨s', hrun', heq'⟩ := Option.map_eq_some_iff.mp hover
  simp only [Prod.mk.injEq] at heq heq'
  obtain ⟨hdone, hmid, hfirst⟩ := heq
  obtain ⟨hdone', hmid', hfirst'⟩ := heq'
  have h := round_of_run hrun hdone
  have h' := round_of_run hrun' hdone'
  obtain ⟨-, ⟨r, -, hr⟩, hsame⟩ := race_settled h
  obtain ⟨-, ⟨r', -, hr'⟩, -⟩ := race_settled h'
  rw [if_pos hfirst] at hr
  rw [if_pos hfirst'] at hr'
  exact ⟨s, s', r, r', h, h', hmid, hmid', hr, hr', (hsame h' hr hr').1⟩

end Lichtung.Prod.Race
