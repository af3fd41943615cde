import Lichtung.Prod.Causality

/-!
# A run as a set of world-lines

The log of a run is one line for each actor and the origins.  Each line is a run of its actor on
its own, given the envelopes it received; each of those was sent on some line or is an origin.

Principal results: `Performed.step` and `Run.performed`.
-/

namespace Lichtung.Prod

open Transition CausalHistory

variable {ι τ α σ : Type} [DecidableEq ι] [DecidableEq τ] {sys : Topology ι τ α σ}
  {s s' : Config ι τ α σ} {L L' : ι → Line ι τ α σ}

/-! ## The lines of the actors -/

/-- Every line is a run of its actor, the log holds its events in order, and the task stands
where it ends. -/
structure Played (sys : Topology ι τ α σ) (s : Config ι τ α σ) (L : ι → Line ι τ α σ) : Prop where
  path : ∀ i, Relation.ReflTransGen (Line.Step sys i) (.start sys i) (L i)
  events : ∀ i, (L i).events = s.events.filter (·.actor = sys.name i)
  task : ∀ i, (s.tasks i).Plays sys i (L i)

omit [DecidableEq ι] [DecidableEq τ] in
theorem Played.init (sys : Topology ι τ α σ) : Played sys (Config.init sys) (Line.start sys) where
  path := fun _ => .refl
  events := fun _ => rfl
  task := fun _ => ⟨fun _ => ⟨rfl, rfl, rfl⟩, fun h => absurd rfl h⟩

omit [DecidableEq τ] in
/-- One more event of one line. -/
theorem Played.act (hn : Named sys) (h : Played sys s L) {i : ι} {e : CausalEvent}
    {t : Task ι τ α σ} {y : Line ι τ α σ} (htasks : s'.tasks = Function.update s.tasks i t)
    (hev : s'.events = s.events ++ [e]) (hactor : e.actor = sys.name i)
    (hstep : Line.Step sys i (L i) y) (hy : y.events = (L i).events ++ [e])
    (ht : t.Plays sys i y) : Played sys s' (Function.update L i y) where
  path := by
    intro j
    by_cases hij : j = i
    · subst hij; rw [Function.update_self]; exact (h.path j).tail hstep
    · rw [Function.update_of_ne hij]; exact h.path j
  events := by
    intro j
    rw [hev, List.filter_append, ← h.events j]
    by_cases hij : j = i
    · subst hij; rw [Function.update_self, hy]; simp [hactor]
    · rw [Function.update_of_ne hij]; simp [hactor, hn.injective.ne (Ne.symm hij)]
  task := by
    intro j
    rw [htasks]
    by_cases hij : j = i
    · subst hij; rw [Function.update_self, Function.update_self]; exact ht
    · rw [Function.update_of_ne hij, Function.update_of_ne hij]; exact h.task j

/-- The lines go on from `L` to `L'`: what was sent stays sent, an emit now recorded is sent, and
what is newly received was in the hands of a task. -/
structure Continues (sys : Topology ι τ α σ) (s s' : Config ι τ α σ)
    (L L' : ι → Line ι τ α σ) : Prop where
  sent : ∀ j, (L j).sent ⊆ (L' j).sent
  emit : ∀ i phase rest addr msg m env, (s.tasks i).pc = .numbered phase rest addr msg m →
    env = ((s.tasks i).stamps.bump (sys.name i)).envelope (sys.name i) m (sys.addr addr) msg →
    s'.events = s.events ++ [emitEvent (sys.name i) ((s.tasks i).stamps.bump (sys.name i)).seq env] →
    env ∈ (L' i).sent
  received : ∀ j, ∀ env ∈ (L' j).received,
    env ∈ (L j).received ∨ ∃ i, (s.tasks i).pc = .received env

/-- Each line stays as it is or takes one step. -/
def LinesMove (sys : Topology ι τ α σ) (L L' : ι → Line ι τ α σ) : Prop :=
  ∀ j, L' j = L j ∨ Line.Step sys j (L j) (L' j)

omit [DecidableEq τ] in
theorem LinesMove.update {i : ι} {y : Line ι τ α σ} (h : Line.Step sys i (L i) y) :
    LinesMove sys L (Function.update L i y) := by
  intro j
  by_cases hij : j = i
  · subst hij; rw [Function.update_self]; exact .inr h
  · rw [Function.update_of_ne hij]; exact .inl rfl

omit [DecidableEq τ] in
/-- A step that records no emit of an actor. -/
theorem Continues.of_update {i : ι} {y : Line ι τ α σ} (hsent : y.sent = (L i).sent)
    (hno : ∀ j seq (env : Envelope τ α),
      s'.events ≠ s.events ++ [emitEvent (sys.name j) seq env])
    (hrecv : ∀ env ∈ y.received, env ∈ (L i).received ∨ ∃ i, (s.tasks i).pc = .received env) :
    Continues sys s s' L (Function.update L i y) where
  sent := by
    intro j
    by_cases hij : j = i
    · subst hij; rw [Function.update_self, hsent]; exact fun _ h => h
    · rw [Function.update_of_ne hij]; exact fun _ h => h
  emit := fun i _ _ _ _ _ env _ _ hev => absurd hev (hno i _ env)
  received := by
    intro j
    by_cases hij : j = i
    · subst hij; rw [Function.update_self]; exact hrecv
    · rw [Function.update_of_ne hij]; exact fun _ h => .inl h

omit [DecidableEq ι] [DecidableEq τ] in
theorem Continues.refl
    (hno : ∀ j seq (env : Envelope τ α),
      s'.events ≠ s.events ++ [emitEvent (sys.name j) seq env]) :
    Continues sys s s' L L where
  sent := fun _ _ h => h
  emit := fun i _ _ _ _ _ env _ _ hev => absurd hev (hno i _ env)
  received := fun _ _ h => .inl h

theorem Played.step (hn : Named sys) (h : Played sys s L) (ha : Addressed sys s)
    (hr : Records sys s s') :
    ∃ L', Played sys s' L' ∧ Continues sys s s' L L' ∧ LinesMove sys L L' := by
  have hlast : ∀ {e e' : CausalEvent}, s'.events = s.events ++ [e] → s'.events = s.events ++ [e'] →
      e = e' := fun h h' => by simpa using h.symm.trans h'
  cases hr with
  | nothing hev hst hplay =>
    refine ⟨L, ⟨h.path, by rw [hev]; exact h.events, fun i => hplay i _ (h.task i)⟩, .refl ?_,
      fun _ => .inl rfl⟩
    intro j seq env hev'
    rw [hev] at hev'
    simpa using congrArg List.length hev'
  | compute i phase rest c hpc hc hev htasks =>
    obtain ⟨hstate, hstamps, hrest⟩ := (h.task i).running (by rw [hpc]; simp)
    rw [hpc] at hrest
    have hc' : c = (L i).stamps.bump (sys.name i) := by rw [hstamps]; exact hc
    have hstep : Line.Step sys i (L i) _ := .compute rest c hrest hc'
    refine ⟨_, h.act hn htasks hev rfl hstep rfl ⟨(by simp), fun _ => ⟨hstate, rfl, rfl⟩⟩,
      .of_update rfl ?_ fun _ h => .inl h, .update hstep⟩
    intro j seq env hev'
    cases congrArg CausalEvent.op (hlast hev hev')
  | emit i phase rest addr msg m c env hpc hc henv hev htasks =>
    obtain ⟨hstate, hstamps, hrest⟩ := (h.task i).running (by rw [hpc]; simp)
    rw [hpc] at hrest
    have hc' : c = (L i).stamps.bump (sys.name i) := by rw [hstamps]; exact hc
    have hstep : Line.Step sys i (L i) _ := .send addr msg rest c m env hrest hc' henv
    refine ⟨_, h.act hn htasks hev rfl hstep rfl ⟨(by simp), fun _ => ⟨hstate, rfl, rfl⟩⟩,
      ⟨?_, ?_, ?_⟩, .update hstep⟩
    · intro j
      by_cases hij : j = i
      · subst hij; rw [Function.update_self]; exact List.subset_append_left ..
      · rw [Function.update_of_ne hij]; exact fun _ h => h
    · intro j phase' rest' addr' msg' m' env' hpc' henv' hev'
      -- the recorded emit tells the actor apart
      obtain rfl : i = j := hn.injective (congrArg CausalEvent.actor (hlast hev hev'))
      cases hpc.symm.trans hpc'
      rw [Function.update_self, henv', ← Config.stamps, ← hc, ← henv]
      simp
    · intro j
      by_cases hij : j = i
      · subst hij; rw [Function.update_self]; exact fun _ h => .inl h
      · rw [Function.update_of_ne hij]; exact fun _ h => .inl h
  | recv i c env hpc hc hev htasks =>
    obtain ⟨hstate, hstamps, hrest⟩ := (h.task i).running (by rw [hpc]; simp)
    rw [hpc] at hrest
    have htype : env.msg.typeId = (sys.actor i).msgType := by
      have := ha.tasks i
      rw [hpc] at this
      exact this.2
    have hc' : c = (L i).stamps.receive (sys.name i) env := by rw [hstamps]; exact hc
    rw [handleAny, if_pos htype, ← hstate] at htasks
    have hstep : Line.Step sys i (L i) _ := .recv env c hrest htype hc'
    refine ⟨_, h.act hn htasks hev rfl hstep rfl ⟨(by simp), fun _ => ⟨rfl, rfl, rfl⟩⟩,
      .of_update rfl ?_ ?_, .update hstep⟩
    · intro j seq env' hev'
      cases congrArg CausalEvent.op (hlast hev hev')
    · intro env' henv'
      rcases List.mem_append.mp henv' with h | h
      · exact .inl h
      · obtain rfl := List.mem_singleton.mp h
        exact .inr ⟨i, hpc⟩
  | world x hx hstage hev htasks =>
    refine ⟨L, ⟨h.path, fun i => ?_, by rw [htasks]; exact h.task⟩, .refl ?_, fun _ => .inl rfl⟩
    · rw [hev, List.filter_append, ← h.events i]
      have hne : ¬ (emitEvent "world" 1 x.env).actor = sys.name i := (hn.not_world i).symm
      simp [hne]
    · intro j seq env hev'
      exact hn.not_world j (congrArg CausalEvent.actor (hlast hev hev')).symm

/-! ## Where envelopes come from -/

/-- An envelope of one of the `send_external` calls among `ls`. -/
def FromOrigin (sys : Topology ι τ α σ) (ls : List (Label ι α)) (env : Envelope τ α) : Prop :=
  ∃ m addr msg, Label.sendExternal addr msg ∈ ls ∧ env = worldEnvelope sys m addr msg

/-- The envelope was sent on a line, or is an origin whose emit is recorded. -/
def Emitted (sys : Topology ι τ α σ) (ls : List (Label ι α)) (events : List CausalEvent)
    (L : ι → Line ι τ α σ) (env : Envelope τ α) : Prop :=
  (∃ j, env ∈ (L j).sent) ∨ FromOrigin sys ls env ∧ emitEvent "world" 1 env ∈ events

/-- The log is the lines and the origins, and whatever was received or is under way was sent on a
line or is an origin. -/
structure Performed (sys : Topology ι τ α σ) (ls : List (Label ι α)) (s : Config ι τ α σ)
    (L : ι → Line ι τ α σ) : Prop where
  played : Played sys s L
  carried : Carries (fun _ => Emitted sys ls s.events L) (fun _ => FromOrigin sys ls) s
  received : ∀ i, ∀ env ∈ (L i).received, Emitted sys ls s.events L env
  actors : ∀ e ∈ s.events, (∃ i, e.actor = sys.name i) ∨
    ∃ env, FromOrigin sys ls env ∧ e = emitEvent "world" 1 env

omit [DecidableEq ι] [DecidableEq τ] in
theorem Performed.init (sys : Topology ι τ α σ) (ls : List (Label ι α)) :
    Performed sys ls (Config.init sys) (Line.start sys) :=
  ⟨.init sys, Carries.init sys, fun _ env henv => (by cases henv), fun e he => by cases he⟩

theorem Records.actors {ls : List (Label ι α)} (hr : Records sys s s')
    (hc : Carries (fun _ => Emitted sys ls s.events L) (fun _ => FromOrigin sys ls) s)
    (h : ∀ e ∈ s.events, (∃ i, e.actor = sys.name i) ∨
      ∃ env, FromOrigin sys ls env ∧ e = emitEvent "world" 1 env) :
    ∀ e ∈ s'.events, (∃ i, e.actor = sys.name i) ∨
      ∃ env, FromOrigin sys ls env ∧ e = emitEvent "world" 1 env := by
  have hsnoc : ∀ {e}, ((∃ i, e.actor = sys.name i) ∨
      ∃ env, FromOrigin sys ls env ∧ e = emitEvent "world" 1 env) →
      s'.events = s.events ++ [e] → ∀ e ∈ s'.events, (∃ i, e.actor = sys.name i) ∨
        ∃ env, FromOrigin sys ls env ∧ e = emitEvent "world" 1 env := by
    intro e he hev e' he'
    rw [hev] at he'
    rcases List.mem_append.mp he' with he' | he'
    · exact h e' he'
    · obtain rfl := List.mem_singleton.mp he'
      exact he
  cases hr with
  | nothing hev => rw [hev]; exact h
  | compute i _ _ _ _ _ hev => exact hsnoc (.inl ⟨i, rfl⟩) hev
  | emit i _ _ _ _ _ _ _ _ _ _ hev => exact hsnoc (.inl ⟨i, rfl⟩) hev
  | recv i _ _ _ _ hev => exact hsnoc (.inl ⟨i, rfl⟩) hev
  | world x hx hstage hev =>
    have := hc.external x hx
    rw [if_pos hstage] at this
    exact hsnoc (.inr ⟨x.env, this, rfl⟩) hev

theorem Performed.step {ls : List (Label ι α)} {l : Label ι α} (hn : Named sys)
    (h : Performed sys ls s L) (hl : l ∈ ls) (ha : Addressed sys s) (hs : Step sys s l s') :
    ∃ L', Performed sys ls s' L' ∧ LinesMove sys L L' := by
  obtain ⟨L', hplayed, hcont, hmoves⟩ := h.played.step hn ha hs.records
  have hmono : ∀ env, Emitted sys ls s.events L env → Emitted sys ls s'.events L' env := by
    rintro env (⟨j, hj⟩ | ⟨horigin, hmem⟩)
    · exact .inl ⟨j, hcont.sent j hj⟩
    · exact .inr ⟨horigin, hs.records.grows.subset hmem⟩
  have hcarried : Carries (fun _ => Emitted sys ls s'.events L') (fun _ => FromOrigin sys ls) s :=
    h.carried.mono (fun _ => hmono) fun _ _ h => h
  refine ⟨L', ⟨hplayed, hcarried.step hs ?_ ?_ ?_, ?_, hs.records.actors h.carried h.actors⟩, hmoves⟩
  · intro i phase rest addr msg m env _ hpc henv hev
    exact .inl ⟨i, hcont.emit i phase rest addr msg m env hpc henv hev⟩
  · rintro addr msg rfl
    exact ⟨_, addr, msg, hl, rfl⟩
  · intro x _ _ hev horigin
    exact .inr ⟨horigin, by rw [hev]; simp⟩
  · intro i env henv
    rcases hcont.received i env henv with hold | ⟨j, hpc⟩
    · exact hmono env (h.received i env hold)
    · have := hcarried.tasks j
      rwa [hpc] at this

variable [Fintype ι]

theorem Run.performed {ls : List (Label ι α)} (hn : Named sys) (h : Run sys ls s) :
    ∃ L, Performed sys ls s L := by
  have hself : ∀ l ∈ ls, l ∈ ls := fun _ h => h
  refine (Transition.Run.induct_on (P := fun s => Account sys s ∧ ∃ L, Performed sys ls s L)
    ?_ h hself ⟨.init sys, _, .init sys ls⟩).2
  rintro s l s' hl hstep ⟨ha, L, hL⟩
  have hstep := step_cases sys hstep
  obtain ⟨L', hL', -⟩ := hL.step hn hl ha.addressed hstep
  exact ⟨ha.step hn hstep, L', hL'⟩

end Lichtung.Prod
