import Lichtung.Prod.Artifacts
import Lichtung.Prod.Streams

/-!
# The order of arrivals

All that a run leaves to the scheduler is the order in which messages of different senders reach one
mailbox.  Two runs in which every actor hears from its senders in the same order have the same
world-lines, msg_ids apart: a log with its msg_ids taken out says no more of the schedule than who
came first, and where that agrees two logs can differ only in how far they go.

Principal results: `Alike.step`, `arrivals_determine` and `viz_determined`.
-/

namespace Lichtung.Prod

open Transition

variable {ι τ α σ : Type}

/-! ## Lists one of which begins the other -/

section Comparable

variable {β : Type} {xs ys zs : List β}

/-- One of the lists begins the other. -/
def Comparable (xs ys : List β) : Prop := xs <+: ys ∨ ys <+: xs

theorem Comparable.of_begins (hx : xs <+: zs) (hy : ys <+: zs) : Comparable xs ys :=
  List.prefix_or_prefix_of_prefix hx hy

theorem Comparable.filter (p : β → Bool) (h : Comparable xs ys) :
    Comparable (xs.filter p) (ys.filter p) :=
  h.imp (·.filter p) (·.filter p)

theorem Comparable.mono (hx : xs <+: zs) (h : Comparable zs ys) : Comparable xs ys := by
  rcases h with h | h
  · exact .inl (hx.trans h)
  · exact .of_begins hx h

theorem Comparable.eq (h : Comparable xs ys) (hlen : xs.length = ys.length) : xs = ys := by
  rcases h with h | h
  · exact h.eq_of_length hlen
  · exact (h.eq_of_length hlen.symm).symm

/-- Comparable lists that go on after the same beginning go on alike. -/
theorem Comparable.next {x y : β} {l : List β} (h : Comparable xs ys) (hx : l ++ [x] <+: xs)
    (hy : l ++ [y] <+: ys) : x = y := by
  have hsame : l ++ [x] = l ++ [y] := by
    refine Comparable.eq ?_ (by simp)
    rcases h with h | h
    · exact .of_begins (hx.trans h) hy
    · exact .of_begins hx (hy.trans h)
  simpa using hsame

/-- One more entry keeps the lists comparable if the other one can only go on with it. -/
theorem Comparable.snoc {x : β} (h : Comparable xs ys) (hx : ∀ y, xs ++ [y] <+: ys → x = y) :
    Comparable (xs ++ [x]) ys := by
  rcases h with ⟨rest, rfl⟩ | h
  · cases rest with
    | nil => exact .inr (by simp)
    | cons y rest =>
      obtain rfl := hx y ⟨rest, by simp⟩
      exact .inl ⟨rest, by simp⟩
  · exact .inr (h.trans (List.prefix_append ..))

end Comparable

/-! ## Lines -/

/-- The senders of the messages an actor received, in the order it received them. -/
def arrivals (events : List CausalEvent) (a : ActorId) : List (Option String) :=
  ((events.filter (·.actor = a)).filter (·.op = .recv)).map (·.src)

theorem arrivals_mono {es fs : List CausalEvent} (h : es <+: fs) (a : ActorId) :
    arrivals es a <+: arrivals fs a :=
  ((h.filter _).filter _).map _

section Lines

variable {sys : Topology ι τ α σ} {s : Config ι τ α σ} {L : ι → Line ι τ α σ} {i : ι}
  {x y : Line ι τ α σ}

theorem Played.arrivals_eq (h : Played sys s L) (i : ι) :
    arrivals s.events (sys.name i) = (L i).received.map fun env => some env.src := by
  have hshown := congrArg (List.map Prod.fst) (Line.Path.shown (h.path i)).received
  rw [List.map_map, List.map_map] at hshown
  rw [arrivals, ← h.events i]
  exact hshown

namespace Line

/-- A step receives nothing or sends nothing. -/
theorem Step.received_or_sent (h : Step sys i x y) : y.received = x.received ∨ y.sent = x.sent := by
  cases h with
  | compute => exact .inl rfl
  | send => exact .inl rfl
  | recv => exact .inr rfl

/-- Lines that received comparable messages did comparable things. -/
theorem Path.comparable (h : Path sys i (start sys i) x) (h' : Path sys i (start sys i) y)
    (hin : Comparable (x.received.map (·.unnumbered)) (y.received.map (·.unnumbered))) :
    Comparable (x.events.map (·.unnumbered)) (y.events.map (·.unnumbered)) ∧
      Comparable (x.sent.map (·.unnumbered)) (y.sent.map (·.unnumbered)) := by
  rcases hin with hin | hin
  · have hx := h.tracks.trans (respond_grows hin)
    exact ⟨.of_begins hx.events h'.tracks.events, .of_begins hx.sent h'.tracks.sent⟩
  · have hy := h'.tracks.trans (respond_grows hin)
    exact ⟨.of_begins h.tracks.events hy.events, .of_begins h.tracks.sent hy.sent⟩

end Line

theorem Pc.rest_of_idle {pc : Pc ι τ α} (h : pc.idle) : pc.rest = [] := by
  cases pc with
  | body phase rest =>
    cases rest with
    | nil => rfl
    | cons => exact h.elim
  | numbered | sending => exact h.elim
  | _ => rfl

/-- With no handler running the line has come to its end. -/
theorem Played.settled (h : Played sys s L) (hi : (s.tasks i).pc.idle) :
    (L i).state = (s.tasks i).state ∧
      (L i).unnumbered = Line.respond sys i ((L i).received.map (·.unnumbered)) := by
  have hpc : (s.tasks i).pc ≠ .spawned := by
    intro hpc
    rw [hpc] at hi
    exact hi
  obtain ⟨hstate, -, hrest⟩ := (h.task i).running hpc
  exact ⟨hstate, Line.Path.settled (h.path i) (hrest.trans (Pc.rest_of_idle hi))⟩

end Lines

/-! ## Two runs -/

variable [Fintype ι] [DecidableEq ι] [DecidableEq τ] {sys : Topology ι τ α σ} {entry : ι} {m : α}
  {ls ls' pre pre' : List (Label ι α)} {s s₁ s' : Config ι τ α σ} {L L₁ L' : ι → Line ι τ α σ}

/-- The lines received the same messages, as far as they have come. -/
def Alike (L L' : ι → Line ι τ α σ) : Prop :=
  ∀ i, Comparable ((L i).received.map (·.unnumbered)) ((L' i).received.map (·.unnumbered))

omit [Fintype ι] [DecidableEq ι] [DecidableEq τ] in
/-- One step further, what was sent is still comparable. -/
theorem Alike.sent (h : Alike L L') (hp : Played sys s L) (hp₁ : Played sys s₁ L₁)
    (hmoves : LinesMove sys L L₁) (hp' : Played sys s' L') (j : ι) :
    Comparable ((L₁ j).sent.map (·.unnumbered)) ((L' j).sent.map (·.unnumbered)) := by
  have hsame : (L₁ j).received = (L j).received ∨ (L₁ j).sent = (L j).sent := by
    rcases hmoves j with heq | hstep
    · exact .inl (congrArg Line.received heq)
    · exact hstep.received_or_sent
  rcases hsame with hreceived | hsent
  · have hin := h j
    rw [← hreceived] at hin
    exact (Line.Path.comparable (hp₁.path j) (hp'.path j) hin).2
  · rw [hsent]
    exact (Line.Path.comparable (hp.path j) (hp'.path j) (h j)).2

omit [Fintype ι] [DecidableEq ι] [DecidableEq τ] in
/-- Where as many messages arrived and no handler is running, the lines are the same. -/
theorem Alike.settled (h : Alike L L') (hp : Played sys s L) (hp' : Played sys s' L') {i : ι}
    (hsame : arrivals s.events (sys.name i) = arrivals s'.events (sys.name i))
    (hi : (s.tasks i).pc.idle) (hi' : (s'.tasks i).pc.idle) :
    (L i).unnumbered = (L' i).unnumbered := by
  have hreceived : (L i).received.map (·.unnumbered) = (L' i).received.map (·.unnumbered) := by
    refine (h i).eq ?_
    rw [hp.arrivals_eq i, hp'.arrivals_eq i] at hsame
    simpa using congrArg List.length hsame
  rw [(hp.settled hi).2, (hp'.settled hi').2, hreceived]

/-- What is received from the world is the origin. -/
theorem Performed.origin_of_received (hn : Named sys) (h : Run sys pre s)
    (hL : Performed sys ls s L) (ho : OneOrigin ls entry m) {i : ι} {env : Envelope τ α}
    (henv : env ∈ (L i).received) (hsrc : ∀ j, env.src ≠ sys.name j) :
    env.unnumbered = worldEnvelope sys 0 entry m := by
  obtain ⟨-, ⟨j, hj, -⟩ | ⟨⟨n, addr, msg, hl, rfl⟩, -⟩⟩ := hL.emit_of_received (h.account hn) henv
  · exact absurd ((Line.Path.shown (hL.played.path j)).signed env hj) (hsrc j)
  · obtain ⟨rfl, rfl⟩ := ho.origin addr msg hl
    rfl

/-- What an actor receives next from a sender is fixed by what it received before. -/
theorem Performed.next_sent (hn : Named sys) (h : Run sys pre s) (hL : Performed sys ls s L)
    {i j : ι} {us : List (Envelope τ α)} {env : Envelope τ α} (hin : us ++ [env] <+: (L i).received)
    (hsrc : env.src = sys.name j) :
    (us.map (·.unnumbered)).filter (·.src = sys.name j) ++ [env.unnumbered] <+:
      ((L j).sent.map (·.unnumbered)).filter (·.dst = sys.name i) := by
  have hchannel := (((hin.filter (·.src = sys.name j)).trans
    (hL.channel hn h i j).1).map (·.unnumbered))
  have hfilter : (us ++ [env]).filter (·.src = sys.name j) =
      us.filter (·.src = sys.name j) ++ [env] := by simp [List.filter_append, hsrc]
  rw [hfilter, List.map_append] at hchannel
  rw [List.filter_map, List.filter_map]
  exact hchannel

/-- **A step keeps two runs alike**, as long as senders arrive in the same order. -/
theorem Alike.step (hn : Named sys) (h : Run sys pre s₁) (hL : Performed sys ls s L)
    (hL₁ : Performed sys ls s₁ L₁) (hmoves : LinesMove sys L L₁) (h' : Run sys pre' s')
    (hL' : Performed sys ls' s' L') (ho : OneOrigin ls entry m) (ho' : OneOrigin ls' entry m)
    (harr : ∀ i, Comparable ((L₁ i).received.map fun env => some env.src)
      ((L' i).received.map fun env => some env.src))
    (halike : Alike L L') : Alike L₁ L' := by
  intro i
  rcases hmoves i with heq | hstep
  · rw [heq]
    exact halike i
  rcases hstep.finish_eq with ⟨hrecv, -⟩ | ⟨env, -, hrecv, -⟩
  · rw [hrecv]
    exact halike i
  · rw [hrecv, List.map_append]
    refine (halike i).snoc fun y hy => ?_
    -- the other line goes on after what this one received before
    obtain ⟨vs, hvs, hsplit⟩ := List.prefix_map_iff.mp hy
    obtain ⟨us, one, rfl, hbefore, hone⟩ := List.map_eq_append_iff.mp hsplit.symm
    obtain ⟨last, rfl, rfl⟩ := List.map_eq_singleton_iff.mp hone
    have hin : (L i).received ++ [env] <+: (L₁ i).received := by rw [hrecv]
    have hsrc : env.src = last.src := by
      have hsenders : us.map (fun env => some env.src) =
          (L i).received.map fun env => some env.src := by
        have := congrArg (List.map fun env => some env.src) hbefore
        rwa [List.map_map, List.map_map] at this
      have hmine := hin.map fun env => some env.src
      have hother := hvs.map fun env => some env.src
      rw [List.map_append] at hmine hother
      rw [hsenders] at hother
      exact Option.some.inj ((harr i).next hmine hother)
    by_cases hactor : ∃ j, env.src = sys.name j
    · obtain ⟨j, hj⟩ := hactor
      have hsent := hL₁.next_sent hn h hin hj
      have hsent' := hL'.next_sent hn h' hvs (hsrc ▸ hj)
      rw [hbefore] at hsent'
      exact ((halike.sent hL.played hL₁.played hmoves hL'.played j).filter _).next hsent hsent'
    · have hworld : ∀ j, env.src ≠ sys.name j := fun j hj => hactor ⟨j, hj⟩
      have henv : env ∈ (L₁ i).received := hin.subset (by simp)
      have hlast : last ∈ (L' i).received := hvs.subset (by simp)
      have horigin := hL₁.origin_of_received hn h ho henv hworld
      exact horigin.trans (hL'.origin_of_received hn h' ho' hlast fun j => hsrc ▸ hworld j).symm

/-- The lines of two runs whose senders arrive in the same order are alike. -/
theorem Run.alike (hn : Named sys) (h : Run sys ls s) (h' : Run sys ls' s')
    (hL' : Performed sys ls' s' L') (ho : OneOrigin ls entry m) (ho' : OneOrigin ls' entry m)
    (harr : ∀ i, Comparable (arrivals s.events (sys.name i)) (arrivals s'.events (sys.name i))) :
    ∃ L, Performed sys ls s L ∧ Alike L L' := by
  -- a beginning of the run has heard from the first of the senders only
  refine (Transition.Run.induct_on (P := fun s => (∃ pre, Run sys pre s) ∧
    ((∀ i, Comparable (arrivals s.events (sys.name i)) (arrivals s'.events (sys.name i))) →
      ∃ L, Performed sys ls s L ∧ Alike L L')) ?_ h (fun l hl => hl)
    ⟨⟨[], .nil _⟩, fun _ => ⟨_, .init sys ls, fun i => .inl List.nil_prefix⟩⟩).2 harr
  rintro s l s₁ hl hstep ⟨⟨pre, hpre⟩, ih⟩
  have hrun : Run sys (pre ++ [l]) s₁ :=
    Transition.Run.append_iff.mpr ⟨s, hpre, .cons hstep (.nil s₁)⟩
  have hs := step_cases sys hstep
  refine ⟨⟨pre ++ [l], hrun⟩, fun harr => ?_⟩
  obtain ⟨L, hL, halike⟩ := ih fun i => (harr i).mono (arrivals_mono hs.records.grows _)
  obtain ⟨L₁, hL₁, hmoves⟩ := hL.step hn hl (hpre.account hn).addressed hs
  refine ⟨L₁, hL₁, halike.step hn hrun hL hL₁ hmoves h' hL' ho ho' fun i => ?_⟩
  have := harr i
  rwa [hL₁.played.arrivals_eq, hL'.played.arrivals_eq] at this

/-- **The order of arrivals is all the schedule decides.**  Take two runs of the same actors with the
same origin in which every actor hears from its senders in the same order, as far as both have come.
Then every world-line of the one, msg_ids apart, begins that of the other or the other way round; and
where an actor has heard from as many and no handler of it is running, it has recorded the same
line and is in the same state. -/
theorem arrivals_determine (hn : Named sys) (h : Run sys ls s) (h' : Run sys ls' s')
    (ho : OneOrigin ls entry m) (ho' : OneOrigin ls' entry m)
    (harr : ∀ i, Comparable (arrivals s.events (sys.name i)) (arrivals s'.events (sys.name i)))
    (i : ι) :
    Comparable ((s.events.filter (·.actor = sys.name i)).map (·.unnumbered))
        ((s'.events.filter (·.actor = sys.name i)).map (·.unnumbered)) ∧
      (arrivals s.events (sys.name i) = arrivals s'.events (sys.name i) →
        (s.tasks i).pc.idle → (s'.tasks i).pc.idle →
          (s.events.filter (·.actor = sys.name i)).map (·.unnumbered) =
              (s'.events.filter (·.actor = sys.name i)).map (·.unnumbered) ∧
            (s.tasks i).state = (s'.tasks i).state) := by
  obtain ⟨L', hL'⟩ := h'.performed hn
  obtain ⟨L, hL, halike⟩ := h.alike hn h' hL' ho ho' harr
  rw [← hL.played.events i, ← hL'.played.events i]
  refine ⟨(Line.Path.comparable (hL.played.path i) (hL'.played.path i) (halike i)).1,
    fun hsame hi hi' => ?_⟩
  have hline := halike.settled hL.played hL'.played hsame hi hi'
  obtain ⟨hstate, -⟩ := hL.played.settled hi
  obtain ⟨hstate', -⟩ := hL'.played.settled hi'
  exact ⟨congrArg Line.events hline,
    hstate.symm.trans ((congrArg Line.state hline).trans hstate')⟩

/-- A schedule of the couriers that lets both tasks wait for the origin. -/
def lateRun : List (Label Bool Nat) :=
  [.sendExternal true 7, .external 0, .external 0, .external 0] ++ List.replicate 2 (.task false) ++
    List.replicate 9 (.task true) ++ List.replicate 2 (.task false)

theorem delivered_origin : OneOrigin deliveredRun true 7 := ⟨by decide, by simp [deliveredRun]⟩

theorem late_origin : OneOrigin lateRun true 7 := ⟨by decide, by simp [lateRun]⟩

/-- Who each of the couriers heard from. -/
def heard (courier : Bool) : List (Option String) := [some (if courier then "world" else "courier")]

theorem couriers_delivered : ∃ s, Run couriers deliveredRun s ∧
    recording.count s.events "world" = 1 ∧ (∀ i, (s.tasks i).pc.idle) ∧
    ∀ i, arrivals s.events (couriers.name i) = heard i :=
  ⟨_, rfl, rfl, fun i => (by cases i <;> trivial), fun i => by cases i <;> rfl⟩

theorem couriers_late : ∃ s, Run couriers lateRun s ∧
    recording.count s.events "world" = 1 ∧ (∀ i, (s.tasks i).pc.idle) ∧
    ∀ i, arrivals s.events (couriers.name i) = heard i :=
  ⟨_, rfl, rfl, fun i => (by cases i <;> trivial), fun i => by cases i <;> rfl⟩

theorem arrivals_determine_couriers : ∃ s s', Run couriers deliveredRun s ∧
    Run couriers lateRun s' ∧ (s.events.filter (·.actor = "sink")).map (·.unnumbered) =
      (s'.events.filter (·.actor = "sink")).map (·.unnumbered) := by
  obtain ⟨s, hrun, -, hidle, harr⟩ := couriers_delivered
  obtain ⟨s', hrun', -, hidle', harr'⟩ := couriers_late
  have hsame := fun i => (harr i).trans (harr' i).symm
  have hall := (arrivals_determine couriers_named hrun hrun' delivered_origin late_origin
    (fun i => .inl (by rw [hsame i])) false).2 (hsame false) (hidle false) (hidle' false)
  exact ⟨s, s', hrun, hrun', hall.1⟩

/-! ## The viz data -/

/-- Logs with the same world-lines hold the same events, msg_ids apart. -/
theorem perm_of_lines {events events' : List CausalEvent}
    (h : ∀ a, (events.filter (·.actor = a)).map (·.unnumbered) =
      (events'.filter (·.actor = a)).map (·.unnumbered)) :
    (events.map (·.unnumbered)).Perm (events'.map (·.unnumbered)) := by
  classical
  have hcount : ∀ (l : List CausalEvent) (e : CausalEvent), (l.map (·.unnumbered)).count e =
      ((l.filter (·.actor = e.actor)).map (·.unnumbered)).count e := by
    intro l e
    have hfilter : (l.filter (·.actor = e.actor)).map (·.unnumbered) =
        (l.map (·.unnumbered)).filter (·.actor = e.actor) := by
      rw [List.filter_map]
      rfl
    rw [hfilter, List.count_filter (by simp)]
  refine List.perm_iff_count.mpr fun e => ?_
  rw [hcount events e, hcount events' e, h e.actor]

/-- The origin is recorded, and no handler is running. -/
structure Paused (s : Config ι τ α σ) : Prop where
  origin : recording.count s.events "world" = 1
  idle : ∀ i, (s.tasks i).pc.idle

/-- Who an actor without fan-in has heard from in a complete run. -/
theorem Performed.arrivals_of_intake {G : ι → ι → Prop} {ok : ι → σ → Prop} (hn : Named sys)
    (hw : Wired sys G ok) (h : Run sys ls s) (hL : Performed sys ls s L) (ho : OneOrigin ls entry m)
    (hc : Complete s L) {i : ι} {us : List (Envelope τ α)} (hi : Intake sys G entry m i us) :
    arrivals s.events (sys.name i) = us.map fun env => some env.src := by
  rw [hL.played.arrivals_eq i, ← (hL.received_of_intake hn hw h ho hi).2 hc, List.map_map]
  rfl

/-- A run that has ended without a panic, and in which every actor heard from someone. -/
theorem Run.paused (hn : Named sys) (hsil : SilentStart sys) (h : Run sys ls s)
    (hq : ∀ l ∈ ls, l.quiet) (hdone : s.runner = .done) (h1 : ls.countP Label.injects = 1)
    (harr : ∀ i, arrivals s.events (sys.name i) ≠ []) : Paused s := by
  obtain ⟨L, hL⟩ := h.performed hn
  obtain ⟨hc, -⟩ := hL.complete hn hsil h hq hdone h1
  have hended := (h.finished hsil hq).ended
  refine ⟨hc.origin, fun i => ?_⟩
  rcases hended.pc i (hended.joined hdone i) with hpc | hpc
  · obtain ⟨-, -, hstart⟩ := (hL.played.task i).fresh hpc
    have hnone := harr i
    rw [hL.played.arrivals_eq i, hstart] at hnone
    exact absurd rfl hnone
  · rw [hpc]
    trivial

omit [DecidableEq ι] [DecidableEq τ] [Fintype ι] in
/-- The line of the world is the emit of the origin. -/
theorem Performed.worldLine_eq (hn : Named sys) (hL : Performed sys ls s L)
    (ho : OneOrigin ls entry m) (h1 : recording.count s.events "world" = 1) :
    (s.events.filter (·.actor = "world")).map (·.unnumbered) =
      [(emitEvent "world" 1 (worldEnvelope sys 0 entry m)).unnumbered] := by
  obtain ⟨origin, hfrom, hworld⟩ := hL.origin hn h1.le
  have hlen : (s.events.filter (·.actor = "world")).length = 1 := by
    rw [← List.countP_eq_length_filter]
    exact h1
  rw [hworld] at hlen ⊢
  cases origin with
  | none => cases hlen
  | some env =>
    obtain ⟨n, addr, msg, hl, rfl⟩ := hfrom env rfl
    obtain ⟨rfl, rfl⟩ := ho.origin addr msg hl
    rfl

/-- Paused runs in which the same senders arrive hold the same events. -/
theorem Run.events_perm (hn : Named sys) (h : Run sys ls s) (h' : Run sys ls' s')
    (ho : OneOrigin ls entry m) (ho' : OneOrigin ls' entry m) (hs : Paused s) (hs' : Paused s')
    (harr : ∀ i, arrivals s.events (sys.name i) = arrivals s'.events (sys.name i)) :
    (s.events.map (·.unnumbered)).Perm (s'.events.map (·.unnumbered)) := by
  obtain ⟨L', hL'⟩ := h'.performed hn
  obtain ⟨L, hL, halike⟩ := h.alike hn h' hL' ho ho' fun i => .inl (by rw [harr i])
  have hnone : ∀ {events : List CausalEvent} {a : ActorId}, (∀ e ∈ events, e.actor ≠ a) →
      events.filter (·.actor = a) = [] := fun h => by simpa using h
  refine perm_of_lines fun a => ?_
  by_cases hactor : ∃ i, a = sys.name i
  · obtain ⟨i, rfl⟩ := hactor
    have hline := halike.settled hL.played hL'.played (harr i) (hs.idle i) (hs'.idle i)
    rw [← hL.played.events i, ← hL'.played.events i]
    exact congrArg Line.events hline
  by_cases hworld : a = "world"
  · subst hworld
    rw [hL.worldLine_eq hn ho hs.origin, hL'.worldLine_eq hn ho' hs'.origin]
  · have hother : ∀ {ls : List (Label ι α)} {s : Config ι τ α σ} {L : ι → Line ι τ α σ},
        Performed sys ls s L → ∀ e ∈ s.events, e.actor ≠ a := by
      rintro ls s L hL e he rfl
      rcases hL.actors e he with hi | ⟨env, -, rfl⟩
      · exact hactor hi
      · exact hworld rfl
    rw [hnone (hother hL), hnone (hother hL')]

/-- Without msg_ids the timeline is still sorted. -/
theorem Run.timeline_unnumbered (hn : Named sys) (h : Run sys ls s) {r : Replayed}
    (hr : replayLog s.events = .ok r) : r.timeline.map (·.unnumbered) =
      (s.events.map (·.unnumbered)).insertionSort (fun a b => a.timelineKey ≤ b.timelineKey) := by
  rw [h.timeline_eq hn hr]
  exact List.map_insertionSort _ _ _ _ fun _ _ _ _ => Iff.rfl

omit [Fintype ι] [DecidableEq ι] [DecidableEq τ] in
/-- Nor do two events share a key. -/
theorem keys_nodup {log : List CausalEvent} (h : WellFormed log) :
    ((log.map (·.unnumbered)).map (·.timelineKey)).Nodup := by
  refine List.Nodup.of_map (fun k => ((ofLex (ofLex k).2).1, (ofLex (ofLex k).2).2)) ?_
  rw [List.map_map, List.map_map]
  exact h.coords

/-- The poset lists the ids of the timeline. -/
theorem posetJson_events {log : List CausalEvent} {r : Replayed} (hr : replayLog log = .ok r) :
    r.posetJson.events = (r.timeline.map (·.unnumbered)).map (·.id) := by
  obtain ⟨es, -, -, rfl⟩ := replayLog_ok.mp hr
  simp only [replayedOf, List.map_map]
  rfl

/-- Either log holds an event with the id of a common one, and with its clock. -/
theorem twin_of_perm {log log' : List CausalEvent} {e : CausalEvent}
    (hperm : (log.map (·.unnumbered)).Perm (log'.map (·.unnumbered)))
    (he : e ∈ log.map (·.unnumbered)) :
    ∃ a ∈ log, ∃ a' ∈ log', a.id = e.id ∧ a'.id = e.id ∧ a'.vclock = a.vclock := by
  obtain ⟨a, ha, rfl⟩ := List.mem_map.mp he
  obtain ⟨a', ha', heq⟩ := List.mem_map.mp (hperm.mem_iff.mp he)
  have hid : a'.unnumbered.id = a.unnumbered.id := congrArg CausalEvent.id heq
  have hclock : a'.unnumbered.vclock = a.unnumbered.vclock := congrArg CausalEvent.vclock heq
  exact ⟨a, ha, a', ha', rfl, hid, hclock⟩

/-- The replays of such runs draw the same timeline and the same poset. -/
theorem Run.replayed_alike (hn : Named sys) (h : Run sys ls s) (h' : Run sys ls' s')
    (ho : OneOrigin ls entry m) (ho' : OneOrigin ls' entry m) (hs : Paused s) (hs' : Paused s')
    (harr : ∀ i, arrivals s.events (sys.name i) = arrivals s'.events (sys.name i))
    {r r' : Replayed} (hr : replayLog s.events = .ok r) (hr' : replayLog s'.events = .ok r') :
    r.timeline.map (·.unnumbered) = r'.timeline.map (·.unnumbered) ∧
      r.posetJson.events = r'.posetJson.events ∧
      ∀ x ∈ r.posetJson.events, ∀ y ∈ r.posetJson.events, x ≠ y →
        (r.posetJson.Before x y ↔ r'.posetJson.Before x y) ∧
          r.posetJson.listings x y = r'.posetJson.listings x y := by
  have hperm := h.events_perm hn h' ho ho' hs hs' harr
  have htimeline : r.timeline.map (·.unnumbered) = r'.timeline.map (·.unnumbered) := by
    rw [h.timeline_unnumbered hn hr, h'.timeline_unnumbered hn hr']
    have hok : Accepted s.events := replayLog_ok_iff.mp ⟨r, hr⟩
    refine KeyOrder.eq_of_perm (KeyOrder.insertionSort_lt (keys_nodup hok.wellFormed))
      (KeyOrder.insertionSort_le _ _) ?_
    exact (List.perm_insertionSort _ _).trans
      (hperm.trans (List.perm_insertionSort _ _).symm)
  -- each id is that of an event of either log, with one clock
  have hid : ∀ x ∈ r.posetJson.events, ∃ a ∈ s.events, ∃ a' ∈ s'.events,
      a.id = x ∧ a'.id = x ∧ a'.vclock = a.vclock := by
    intro x hx
    rw [posetJson_events hr, h.timeline_unnumbered hn hr, List.mem_map] at hx
    obtain ⟨e, he, rfl⟩ := hx
    exact twin_of_perm hperm ((List.perm_insertionSort _ _).mem_iff.mp he)
  refine ⟨htimeline, by rw [posetJson_events hr, posetJson_events hr', htimeline],
    fun x hx y hy hne => ?_⟩
  obtain ⟨a, ha, a', ha', rfl, hida, hclocka⟩ := hid x hx
  obtain ⟨b, hb, b', hb', rfl, hidb, hclockb⟩ := hid y hy
  have hab : a ≠ b := fun heq => hne (congrArg CausalEvent.id heq)
  have hab' : a' ≠ b' := fun heq => hne (hida.symm.trans ((congrArg CausalEvent.id heq).trans hidb))
  have hbefore := (h'.before_iff hn hr' ho'.count ha' hb' hab').1
  have hlisted := h'.listings_eq hn hr' ho'.count ha' hb' hab'
  rw [hida, hidb, hclocka, hclockb] at hbefore
  have hinc : Incomparable a' b' ↔ Incomparable a b := by
    rw [Incomparable, Incomparable, hclocka, hclockb]
  rw [hida, hidb, if_congr hinc rfl rfl] at hlisted
  exact ⟨(h.before_iff hn hr ho.count ha hb hab).1.trans hbefore.symm,
    (h.listings_eq hn hr ho.count ha hb hab).trans hlisted.symm⟩

/-- **The viz data show who came first, and nothing else of the schedule.**  Two runs of the same
actors with the same recorded origin, in which every actor heard from its senders in the same order
and no handler is running, replay to the same timeline, msg_ids apart, and to the same poset: the
same ids, the same order drawn by the edges, the same pairs listed as concurrent. -/
theorem viz_determined (hn : Named sys) (h : Run sys ls s) (h' : Run sys ls' s')
    (ho : OneOrigin ls entry m) (ho' : OneOrigin ls' entry m) (hs : Paused s) (hs' : Paused s')
    (harr : ∀ i, arrivals s.events (sys.name i) = arrivals s'.events (sys.name i)) :
    ∃ r r', replayLog s.events = .ok r ∧ replayLog s'.events = .ok r' ∧
      r.timeline.map (·.unnumbered) = r'.timeline.map (·.unnumbered) ∧
      r.posetJson.events = r'.posetJson.events ∧
      ∀ x ∈ r.posetJson.events, ∀ y ∈ r.posetJson.events, x ≠ y →
        (r.posetJson.Before x y ↔ r'.posetJson.Before x y) ∧
          r.posetJson.listings x y = r'.posetJson.listings x y := by
  obtain ⟨r, hr⟩ := replayLog_ok_iff.mpr (h.accepted hn ho.count (.refl _))
  obtain ⟨r', hr'⟩ := replayLog_ok_iff.mpr (h'.accepted hn ho'.count (.refl _))
  exact ⟨r, r', hr, hr', h.replayed_alike hn h' ho ho' hs hs' harr hr hr'⟩

theorem viz_determined_couriers : ∃ s s' r r', Run couriers deliveredRun s ∧
    Run couriers lateRun s' ∧ replayLog s.events = .ok r ∧ replayLog s'.events = .ok r' ∧
    r.timeline.map (·.unnumbered) = r'.timeline.map (·.unnumbered) ∧
    r.posetJson.events = r'.posetJson.events := by
  obtain ⟨s, hrun, hw, hidle, harr⟩ := couriers_delivered
  obtain ⟨s', hrun', hw', hidle', harr'⟩ := couriers_late
  obtain ⟨r, r', hr, hr', htimeline, hevents, -⟩ := viz_determined couriers_named hrun hrun'
    delivered_origin late_origin ⟨hw, hidle⟩ ⟨hw', hidle'⟩ fun i => (harr i).trans (harr' i).symm
  exact ⟨s, s', r, r', hrun, hrun', hr, hr', htimeline, hevents⟩

end Lichtung.Prod
