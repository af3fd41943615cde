import Lichtung.Prod.Isolation
import Lichtung.Replay.Canonical

/-!
# Causality follows the wiring

Actors send only to the addresses they were given.  Where those form a graph, a vector clock never
counts events of an actor from which there is no way along the graph, and happens-before never
leaves it: actors with no way between them are concurrent in every run.

Principal results: `Influenced.step`, `Run.reaches_of_causallyBefore` and
`causality_follows_wiring`.
-/

namespace Lichtung.Prod

open Transition

variable {ι τ α σ : Type}

/-! ## The wiring -/

/-- The calls send along `G` only. -/
def SendsAlong (G : ι → ι → Prop) (i : ι) (calls : List (Action ι α)) : Prop :=
  ∀ addr msg, Action.send addr msg ∈ calls → G i addr

/-- Every actor sends along `G` only, whatever it receives.  `ok` says which states an actor can be
in: which addresses it was given. -/
structure Wired (sys : Topology ι τ α σ) (G : ι → ι → Prop) (ok : ι → σ → Prop) : Prop where
  init : ∀ i, ok i (sys.init i)
  started : ∀ i x, ok i x →
    ok i ((sys.actor i).started x).1 ∧ SendsAlong G i ((sys.actor i).started x).2
  handle : ∀ i x msg, ok i x →
    ok i ((sys.actor i).handle x msg).1 ∧ SendsAlong G i ((sys.actor i).handle x msg).2

/-- There is a way along the wiring from one actor to the other. -/
abbrev Reaches (G : ι → ι → Prop) : ι → ι → Prop := Relation.ReflTransGen G

variable {sys : Topology ι τ α σ} {G : ι → ι → Prop} {ok : ι → σ → Prop}

theorem SendsAlong.tail {i : ι} {a : Action ι α} {calls : List (Action ι α)}
    (h : SendsAlong G i (a :: calls)) : SendsAlong G i calls :=
  fun addr msg hmem => h addr msg (List.mem_cons_of_mem a hmem)

/-- What the wiring says of one world-line. -/
structure Line.Wired (sys : Topology ι τ α σ) (G : ι → ι → Prop) (ok : ι → σ → Prop) (i : ι)
    (x : Line ι τ α σ) : Prop where
  state : ok i x.state
  rest : SendsAlong G i x.rest
  events : ∀ e ∈ x.events, e.op = .emit → ∃ j, e.dst = some (sys.name j) ∧ G i j

namespace Line

variable {i : ι} {x y : Line ι τ α σ}

theorem Wired.snoc {e : CausalEvent} (h : Line.Wired sys G ok i x)
    (he : e.op = .emit → ∃ j, e.dst = some (sys.name j) ∧ G i j) :
    ∀ f ∈ x.events ++ [e], f.op = .emit → ∃ j, f.dst = some (sys.name j) ∧ G i j := by
  intro f hf
  rcases List.mem_append.mp hf with hf | hf
  · exact h.events f hf
  · obtain rfl := List.mem_singleton.mp hf
    exact he

theorem Wired.step (hw : Prod.Wired sys G ok) (h : Line.Wired sys G ok i x)
    (hs : Step sys i x y) : Line.Wired sys G ok i y := by
  cases hs with
  | compute rest c hrest hc => exact ⟨h.state, (hrest ▸ h.rest).tail, h.snoc (by simp)⟩
  | send addr msg rest c m env hrest hc henv =>
    have hrest' : SendsAlong G i (.send addr msg :: rest) := hrest ▸ h.rest
    refine ⟨h.state, hrest'.tail, h.snoc fun _ => ⟨addr, ?_, hrest' addr msg (by simp)⟩⟩
    rw [henv]
    rfl
  | recv env c hrest htype hc =>
    obtain ⟨hstate, hcalls⟩ := hw.handle i x.state env.msg.val h.state
    exact ⟨hstate, hcalls, h.snoc (by simp)⟩

/-- **Every world-line keeps to the wiring.** -/
theorem Path.wired (hw : Prod.Wired sys G ok) (h : Path sys i (.start sys i) x) :
    Line.Wired sys G ok i x := by
  induction h with
  | refl =>
    obtain ⟨hstate, hcalls⟩ := hw.started i (sys.init i) (hw.init i)
    exact ⟨hstate, hcalls, fun e he => by cases he⟩
  | tail _ hs ih => exact ih.step hw hs

end Line

/-- The replay of an accepted log lists incomparable events as concurrent. -/
theorem listed_of_incomparable {log : List CausalEvent} (hok : Accepted log) {a b : CausalEvent}
    (ha : a ∈ log) (hb : b ∈ log) (hab : Incomparable a b) : ∃ r, replayLog log = .ok r ∧
      ((a.id, b.id) ∈ r.posetJson.concurrent ∨ (b.id, a.id) ∈ r.posetJson.concurrent) := by
  obtain ⟨r, hr⟩ := replayLog_ok_iff.mpr hok
  obtain ⟨es, hes, -, rfl⟩ := replayLog_ok.mp hr
  have hv := (accepted_iff_validate hes).mpr hok
  obtain ⟨p, rfl⟩ := exists_eventAt ha
  obtain ⟨q, rfl⟩ := exists_eventAt hb
  refine ⟨_, hr, mem_concurrentPairs.mpr ⟨p, q, ?_, ?_, ?_, rfl, rfl⟩⟩
  · rintro rfl
    exact hab.1 le_rfl
  · exact fun hpath => hab.1 (clocks_of_path hv hpath).le
  · exact fun hpath => hab.2 (clocks_of_path hv hpath).le

variable [DecidableEq ι] [DecidableEq τ] {s s' : Config ι τ α σ}

section Runs

variable [Fintype ι]

/-- What the tasks have still to send, and what is recorded as sent, goes along the wiring. -/
theorem Run.wired {ls : List (Label ι α)} (hn : Named sys) (hw : Wired sys G ok)
    (h : Run sys ls s) :
    (∀ i, (s.tasks i).pc ≠ .spawned → SendsAlong G i (s.tasks i).pc.rest) ∧
      ∀ i, ∀ e ∈ s.events, e.actor = sys.name i → e.op = .emit →
        ∃ j, e.dst = some (sys.name j) ∧ G i j := by
  obtain ⟨L, hL⟩ := h.performed hn
  have hline : ∀ i, Line.Wired sys G ok i (L i) := fun i =>
    Line.Path.wired hw (hL.played.path i)
  refine ⟨fun i hpc => ?_, fun i e he hactor hop => ?_⟩
  · obtain ⟨-, -, hrest⟩ := (hL.played.task i).running hpc
    exact hrest ▸ (hline i).rest
  · refine (hline i).events e ?_ hop
    rw [hL.played.events i]
    exact List.mem_filter.mpr ⟨he, by simpa using hactor⟩

end Runs

/-! ## What the clocks know -/

/-- A clock in the hands of `i`, or meant for it, counts only events of actors with a way to it. -/
def Heard (sys : Topology ι τ α σ) (G : ι → ι → Prop) (i : ι) (clock : VectorClock) : Prop :=
  ∀ k, clock.get (sys.name k) ≠ 0 → Reaches G k i

omit [DecidableEq ι] [DecidableEq τ] in
theorem Heard.bump {i : ι} {c : Stamps} (hn : Named sys) (h : Heard sys G i c.clock) :
    Heard sys G i (c.bump (sys.name i)).clock := by
  intro k hk
  rw [Stamps.bump_get] at hk
  by_cases hki : sys.name k = sys.name i
  · rw [hn.injective hki]
  · rw [if_neg hki] at hk
    exact h k hk

omit [DecidableEq ι] [DecidableEq τ] in
theorem Heard.receive {i : ι} {c : Stamps} {env : Envelope τ α} (hn : Named sys)
    (h : Heard sys G i c.clock) (henv : Heard sys G i env.vclock) :
    Heard sys G i (c.receive (sys.name i) env).clock := by
  intro k hk
  rw [Stamps.receive_get] at hk
  by_cases hki : sys.name k = sys.name i
  · rw [hn.injective hki]
  · rw [if_neg hki] at hk
    by_cases hc : c.clock.get (sys.name k) = 0
    · rw [hc, Nat.zero_max] at hk
      exact henv k hk
    · exact h k hc

omit [DecidableEq ι] [DecidableEq τ] in
theorem Heard.along {i j : ι} {clock : VectorClock} (h : Heard sys G i clock) (hij : G i j) :
    Heard sys G j clock :=
  fun k hk => (h k hk).tail hij

/-- The recorded clock of an event of `i`: it counts the event, and only events of actors with a way
to `i`. -/
structure Knows (sys : Topology ι τ α σ) (G : ι → ι → Prop) (i : ι) (e : CausalEvent) : Prop where
  own : 0 < e.vclock.components (sys.name i)
  heard : ∀ k, e.vclock.components (sys.name k) ≠ 0 → Reaches G k i

/-- No clock of the system knows of an actor without a way to its holder. -/
structure Influenced (sys : Topology ι τ α σ) (G : ι → ι → Prop) (s : Config ι τ α σ) : Prop where
  stamps : ∀ i, Heard sys G i (s.stamps i).clock
  carried : Carries (fun i env => Heard sys G i env.vclock) (fun i env => Heard sys G i env.vclock) s
  events : ∀ i, ∀ e ∈ s.events, e.actor = sys.name i → Knows sys G i e

omit [DecidableEq ι] [DecidableEq τ] in
theorem Influenced.init (sys : Topology ι τ α σ) : Influenced sys G (Config.init sys) where
  stamps := fun i k hk => absurd (VectorClock.get_new _) hk
  carried := Carries.init sys
  events := fun i e he => by cases he

omit [DecidableEq τ] in
/-- One more event of actor `i`, with the stamps it advances. -/
theorem Influenced.act {i : ι} {e : CausalEvent} {c : Stamps} (hn : Named sys)
    (h : Influenced sys G s) (hactor : e.actor = sys.name i)
    (hclock : e.vclock.components = c.clock.get) (hown : 0 < c.clock.get (sys.name i))
    (hc : Heard sys G i c.clock) (hev : s'.events = s.events ++ [e])
    (hst : s'.stamps = Function.update s.stamps i c)
    (hcarried : Carries (fun i env => Heard sys G i env.vclock)
      (fun i env => Heard sys G i env.vclock) s') : Influenced sys G s' where
  stamps := by
    rw [hst]
    exact (Function.forall_update_iff s.stamps fun j c => Heard sys G j c.clock).mpr
      ⟨hc, fun j _ => h.stamps j⟩
  carried := hcarried
  events := by
    intro j f hf hfj
    rw [hev] at hf
    rcases List.mem_append.mp hf with hf | hf
    · exact h.events j f hf hfj
    · obtain rfl := List.mem_singleton.mp hf
      obtain rfl := hn.injective (hactor.symm.trans hfj)
      exact ⟨hclock ▸ hown, fun k hk => hc k (hclock ▸ hk)⟩

/-- **Every step keeps the clocks to the wiring.** -/
theorem Influenced.step {l : Label ι α} (hn : Named sys) (h : Influenced sys G s)
    (hw : ∀ i, (s.tasks i).pc ≠ .spawned → SendsAlong G i (s.tasks i).pc.rest)
    (hs : Step sys s l s') : Influenced sys G s' := by
  have hcarried : Carries (fun i env => Heard sys G i env.vclock)
      (fun i env => Heard sys G i env.vclock) s' := by
    refine h.carried.step hs ?_ ?_ fun _ _ _ _ h => h
    · rintro i phase rest addr msg m env - hpc rfl -
      have hsend : G i addr := by
        have hcalls := hw i (by rw [hpc]; simp)
        rw [hpc] at hcalls
        exact hcalls addr msg (List.mem_cons_self ..)
      exact ((h.stamps i).bump hn).along hsend
    · intro addr msg _ k hk
      refine absurd ?_ hk
      show (VectorClock.new.increment "world").get (sys.name k) = 0
      rw [VectorClock.get_increment, if_neg (hn.not_world k), VectorClock.get_new]
  have hownBump : ∀ i, 0 < ((s.stamps i).bump (sys.name i)).clock.get (sys.name i) := fun i => by
    rw [Stamps.bump_get, if_pos rfl]
    exact Nat.succ_pos _
  cases hs.records with
  | nothing hev hst hplay => exact ⟨by rw [hst]; exact h.stamps, hcarried, by rw [hev]; exact h.events⟩
  | compute i phase rest c hpc hc hev htasks =>
    subst hc
    exact h.act hn rfl rfl (hownBump i) ((h.stamps i).bump hn) hev (stamps_task htasks rfl) hcarried
  | emit i phase rest addr msg m c env hpc hc henv hev htasks =>
    subst hc
    refine h.act hn rfl ?_ (hownBump i) ((h.stamps i).bump hn) hev (stamps_task htasks rfl) hcarried
    rw [henv]
    rfl
  | recv i c env hpc hc hev htasks =>
    subst hc
    have henv : Heard sys G i env.vclock := by
      have := h.carried.tasks i
      rwa [hpc] at this
    refine h.act hn rfl rfl ?_ ((h.stamps i).receive hn henv) hev (stamps_task htasks rfl) hcarried
    rw [Stamps.receive_get, if_pos rfl]
    exact Nat.succ_pos _
  | world x hx hstage hev htasks =>
    have hst : s'.stamps = s.stamps := by
      funext i
      rw [Config.stamps, htasks]
      rfl
    refine ⟨by rw [hst]; exact h.stamps, hcarried, fun i e he hei => ?_⟩
    rw [hev] at he
    rcases List.mem_append.mp he with he | he
    · exact h.events i e he hei
    · obtain rfl := List.mem_singleton.mp he
      exact absurd hei.symm (hn.not_world i)

omit [DecidableEq ι] [DecidableEq τ] in
/-- An event of `i` is at or below an event of `j` only if there is a way from `i` to `j`. -/
theorem Influenced.reaches_of_le {i j : ι} (h : Influenced sys G s) {a b : CausalEvent}
    (ha : a ∈ s.events) (hai : a.actor = sys.name i) (hb : b ∈ s.events)
    (hbj : b.actor = sys.name j) (hle : a.vclock.components ≤ b.vclock.components) :
    Reaches G i j := by
  have hpos := (h.events i a ha hai).own.trans_le (hle (sys.name i))
  exact (h.events j b hb hbj).heard i hpos.ne'

omit [DecidableEq ι] [DecidableEq τ] in
/-- Events of actors with no way between them are incomparable. -/
theorem Influenced.incomparable {i j : ι} (h : Influenced sys G s) (hij : ¬ Reaches G i j)
    (hji : ¬ Reaches G j i) {a b : CausalEvent} (ha : a ∈ s.events) (hai : a.actor = sys.name i)
    (hb : b ∈ s.events) (hbj : b.actor = sys.name j) : Incomparable a b :=
  ⟨fun hle => hij (h.reaches_of_le ha hai hb hbj hle),
    fun hle => hji (h.reaches_of_le hb hbj ha hai hle)⟩

variable [Fintype ι]

theorem Run.influenced {ls : List (Label ι α)} (hn : Named sys) (hw : Wired sys G ok)
    (h : Run sys ls s) : Influenced sys G s :=
  Transition.Run.induct_reachable (fun hr => (Run.wired hn hw hr).1)
    (fun hcalls hstep hi => Influenced.step hn hi hcalls (step_cases sys hstep)) h (.init sys)

/-! ## Happens-before -/

/-- The causal future of an event of `i` lies at the actors to which there is a way from `i`. -/
theorem Run.reaches_of_causallyBefore {ls : List (Label ι α)} (hn : Named sys)
    (hw : Wired sys G ok) (h : Run sys ls s) {a b : CausalEvent} {i : ι}
    (ha : a.actor = sys.name i) (hab : CausallyBefore s.events a b) :
    ∃ j, b.actor = sys.name j ∧ Reaches G i j := by
  have hacc := h.account hn
  obtain ⟨-, hsent⟩ := h.wired hn hw
  -- one direct step stays with its actor, or follows a message
  have hdirect : ∀ {k : ι} {e f : CausalEvent}, e.actor = sys.name k → e ∈ s.events →
      f ∈ s.events → (ProgramOrder e f ∨ MessageOrder e f) →
        ∃ j, f.actor = sys.name j ∧ Reaches G k j := by
    rintro k e f hek he hf (⟨hline, -⟩ | hmsg)
    · exact ⟨k, hline ▸ hek, .refl⟩
    · obtain ⟨j, hdst, hkj⟩ := hsent k e he hek hmsg.1
      refine ⟨j, ?_, .single hkj⟩
      exact Option.some.inj ((hacc.dst_of_message he hf hmsg).symm.trans hdst)
  induction hab with
  | single hstep => exact hdirect ha hstep.1 hstep.2.1 hstep.2.2
  | tail _ hstep ih =>
    obtain ⟨k, hk, hik⟩ := ih
    obtain ⟨j, hj, hkj⟩ := hdirect hk hstep.1 hstep.2.1 hstep.2.2
    exact ⟨j, hj, hik.trans hkj⟩

/-- With at most one origin, every order of the log is accepted. -/
theorem Run.accepted {ls : List (Label ι α)} (hn : Named sys) (h : Run sys ls s)
    (h1 : ls.countP Label.injects ≤ 1) {log : List CausalEvent} (hp : log.Perm s.events) :
    Accepted log := by
  have hworld := h.origins hn
  exact ((h.account hn).accepted (by omega)).perm hp.symm

/-- **Causality follows the wiring.**  Where no way along the wiring leads from actor `i` to actor
`j`, in every run no event of `i` is causally before one of `j`, and no clock of `j` is above one of
`i`.  Where none leads back either, their events are pairwise incomparable, and with at most one
`send_external` the replay of the log, in any order, lists every one of these pairs as
concurrent. -/
theorem causality_follows_wiring {ls : List (Label ι α)} (hn : Named sys) (hw : Wired sys G ok)
    (h : Run sys ls s) {i j : ι} (hij : ¬ Reaches G i j) {a b : CausalEvent}
    (ha : a ∈ s.events) (hai : a.actor = sys.name i) (hb : b ∈ s.events)
    (hbj : b.actor = sys.name j) :
    (¬ CausallyBefore s.events a b ∧ ¬ a.vclock.components ≤ b.vclock.components) ∧
      (¬ Reaches G j i → Incomparable a b ∧ (ls.countP Label.injects ≤ 1 →
        ∀ log, log.Perm s.events → ∃ r, replayLog log = .ok r ∧
          ((a.id, b.id) ∈ r.posetJson.concurrent ∨ (b.id, a.id) ∈ r.posetJson.concurrent))) := by
  have hinf := h.influenced hn hw
  refine ⟨⟨fun hab => ?_, fun hle => hij (hinf.reaches_of_le ha hai hb hbj hle)⟩, fun hji => ?_⟩
  · obtain ⟨k, hk, hik⟩ := h.reaches_of_causallyBefore hn hw hai hab
    obtain rfl := hn.injective (hk.symm.trans hbj)
    exact hij hik
  · have hinc := hinf.incomparable hij hji ha hai hb hbj
    exact ⟨hinc, fun h1 log hp => listed_of_incomparable (h.accepted hn h1 hp)
      (hp.mem_iff.mpr ha) (hp.mem_iff.mpr hb) hinc⟩

/-- The courier knows the sink, and no one knows the courier. -/
theorem couriers_wired :
    Wired couriers (fun i j => i = true ∧ j = false) fun _ _ => True where
  init := fun _ => trivial
  started := fun i _ _ => ⟨trivial, fun addr msg hmem => by cases hmem⟩
  handle := by
    rintro (_ | _) _ _ -
    · exact ⟨trivial, fun addr msg hmem => by cases hmem⟩
    · refine ⟨trivial, fun addr msg hmem => ?_⟩
      cases List.mem_singleton.mp hmem
      exact ⟨rfl, rfl⟩

/-- The receipt of the sink is not before the courier's own events, nor below them. -/
theorem causality_follows_wiring_couriers : ∃ s a b, Run couriers deliveredRun s ∧
    a ∈ s.events ∧ a.actor = "sink" ∧ b ∈ s.events ∧ b.actor = "courier" ∧
    ¬ CausallyBefore s.events a b ∧ ¬ a.vclock.components ≤ b.vclock.components := by
  obtain ⟨s, hrun, hev⟩ : ∃ s, Run couriers deliveredRun s ∧ s.events = deliveredLog :=
    ⟨_, rfl, rfl⟩
  have hsink : deliveredLog[3] ∈ s.events := by rw [hev]; decide
  have hcourier : deliveredLog[1] ∈ s.events := by rw [hev]; decide
  have hno : ¬ Reaches (fun i j : Bool => i = true ∧ j = false) false true := by
    intro hreach
    rcases Relation.ReflTransGen.cases_head hreach with h | ⟨_, ⟨h, -⟩, -⟩ <;> cases h
  exact ⟨s, _, _, hrun, hsink, by decide, hcourier, by decide,
    (causality_follows_wiring couriers_named couriers_wired hrun hno hsink (by decide) hcourier
      (by decide)).1⟩

end Lichtung.Prod
