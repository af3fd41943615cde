import Lichtung.Replay.Canonical
import Lichtung.Replay.Verdict

/-!
# The order of the log's lines

A replay reads two tables keyed by id: the index, in which a later line replaces an earlier one of
the same id, and the set of produced ids.  Nothing else in it depends on the order of the lines.
`reenact` is the driver without the index: it re-executes the actors and looks no event up.

Principal results: `replay_reenact` (what a replay adds to the re-enactment) and
`sameVerdict_iff` (for which re-enactments the verdict does not depend on the order).
-/

namespace Lichtung

variable {τ α σ : Type}

/-! ## The emits of a shuffled log -/

/-- Every actor's recorded emits are the same in any order of the lines. -/
theorem emits_perm {log log' : List CausalEvent} (hwf : WellFormed log) (hp : log.Perm log') :
    (RecordedIndex.build log).emitsByActor = (RecordedIndex.build log').emitsByActor := by
  funext a
  rw [RecordedIndex.build_emits, RecordedIndex.build_emits]
  refine KeyOrder.eq_insertionSort (KeyOrder.insertionSort_lt ?_)
    ((List.perm_insertionSort _ _).trans (hp.filter _))
  refine (hwf.nodup.filter _).map_on fun e he f hf hseq => ?_
  obtain ⟨hlog, he⟩ := List.mem_filter.mp he
  obtain ⟨hlog', hf⟩ := List.mem_filter.mp hf
  rw [decide_eq_true_eq] at he hf
  exact hwf.eq_of_coords hlog hlog' (he.2.trans hf.2.symm) hseq

/-- The last line of an id is the one found under it. -/
theorem build_byId_append {log : List CausalEvent} {e : CausalEvent} {lines : List CausalEvent}
    (he : e ∈ lines) (huniq : ∀ f ∈ lines, f.id = e.id → f = e) :
    (RecordedIndex.build (log ++ lines)).byId e.id = some e := by
  have hlines := RecordedIndex.build_byId_of_unique he huniq
  have hfind := RecordedIndex.foldl_push_byId e.id lines .empty
  show ((log ++ lines).foldl RecordedIndex.push .empty).byId e.id = some e
  rw [List.foldl_append, RecordedIndex.foldl_push_byId]
  have hsome : (lines.reverse.find? fun f => f.id = e.id) = some e := by
    rw [← hlines]
    exact (hfind.trans (Option.or_none ..)).symm
  rw [hsome]
  rfl

/-! ## Re-execution without the index -/

/-- The index with no event under any id. -/
def RecordedIndex.blind (idx : RecordedIndex) : RecordedIndex := ⟨fun _ => none, idx.emitsByActor⟩

namespace ReplayState

/-- The same state without the index, and with other divergences. -/
def blind (s : ReplayState τ α) (ds : List Divergence) : ReplayState τ α :=
  { s with recorded := s.recorded.blind, divergences := ds }

end ReplayState

/-- `ds` are the divergences that the state `s` of a replay of `log` would have without the index:
each produced event is reported for want of a counterpart. -/
structure Blinded (log : List CausalEvent) (s : ReplayState τ α) (ds : List Divergence) : Prop where
  recorded : s.recorded = .build log
  ids : ∀ e ∈ s.journal.events, e.id = idOf e.actor e.seq
  silent : s.divergences = [] ↔ (∀ x ∈ ds, x.detail = .noCounterpart) ∧
    ∀ e ∈ s.journal.events, (RecordedIndex.build log).byId e.id = some e

namespace Blinded

variable {log : List CausalEvent} {s : ReplayState τ α} {ds : List Divergence}

theorem verify (h : Blinded log s ds) {e : CausalEvent} (he : e.id = idOf e.actor e.seq) :
    Blinded log (s.verify e) (ds ++ [⟨e.id, .noCounterpart⟩]) where
  recorded := h.recorded
  ids f hf := by
    rcases List.mem_append.mp hf with hf | hf
    · exact h.ids f hf
    · rwa [List.mem_singleton.mp hf]
  silent := by
    have hmismatch : s.mismatch e = [] ↔ (RecordedIndex.build log).byId e.id = some e := by
      rw [← h.recorded]
      unfold ReplayState.mismatch
      split
      · rename_i r hr
        rw [hr]
        split <;> simp_all
      · rename_i hr
        simp [hr]
    show s.divergences ++ s.mismatch e = [] ↔ _ ∧ ∀ f ∈ s.journal.events ++ [e], _
    rw [List.append_eq_nil_iff, h.silent, hmismatch]
    simp only [List.forall_mem_append, List.forall_mem_singleton, and_true, and_assoc]

theorem diverge (h : Blinded log s ds) (id : String) {detail : Detail}
    (hd : detail ≠ .noCounterpart) :
    Blinded log (s.diverge id detail) (ds ++ [⟨id, detail⟩]) where
  recorded := h.recorded
  ids := h.ids
  silent := by
    refine iff_of_false (ReplayState.diverge_ne_nil s id detail) fun hall => hd ?_
    exact hall.1 ⟨id, detail⟩ (by simp)

end Blinded

section Passes

variable {log : List CausalEvent} {s : ReplayState τ α} {ds : List Divergence} {id : ActorId}

/-- The next msg_id comes from the emits of the actor. -/
theorem nextMsgId_blind (h : Blinded log s ds) (id : ActorId) : ∃ m s' ds',
    ReplayDispatch.nextMsgId ⟨s, id⟩ = (m, ⟨s', id⟩) ∧
      ReplayDispatch.nextMsgId ⟨s.blind ds, id⟩ = (m, ⟨s'.blind ds', id⟩) ∧ Blinded log s' ds' := by
  have hcounted : Blinded log { s with
      sendCount := Function.update s.sendCount id (s.sendCount id + 1) } ds :=
    ⟨h.recorded, h.ids, h.silent⟩
  cases hm : (s.recorded.emitsByActor id)[s.sendCount id]?.bind CausalEvent.parsedMid with
  | some m =>
    refine ⟨m, _, ds, ?_, ?_, hcounted⟩
    · simp [ReplayDispatch.nextMsgId, hm]
    · simp [ReplayDispatch.nextMsgId, ReplayState.blind, RecordedIndex.blind, hm]
  | none =>
    have hmore : Detail.moreSends ≠ .noCounterpart := by simp
    refine ⟨2 ^ 64 - 1 - (s.sendCount id + 1), _, _, ?_, ?_,
      hcounted.diverge (id ++ ":send" ++ (s.sendCount id + 1).repr) hmore⟩
    · simp [ReplayDispatch.nextMsgId, hm]
    · simp [ReplayDispatch.nextMsgId, ReplayState.blind, RecordedIndex.blind, hm,
        ReplayState.diverge]

/-- The calls of a handler do not see the index. -/
theorem performAll_blind [Counter] (id : ActorId) : ∀ (as : List (Action (Addr τ) α)) (c : Stamps)
    {s : ReplayState τ α} {ds : List Divergence}, Blinded log s ds → ∃ c' s' ds',
      Context.performAll id as c (⟨s, id⟩ : ReplayDispatch τ α) = (c', ⟨s', id⟩) ∧
      Context.performAll id as c (⟨s.blind ds, id⟩ : ReplayDispatch τ α) =
        (c', ⟨s'.blind ds', id⟩) ∧ Blinded log s' ds'
  | [], c, s, ds, h => ⟨c, s, ds, rfl, rfl, h⟩
  | .compute :: as, c, s, ds, h => by
    obtain ⟨c', s', ds', hs, hblind, h'⟩ := performAll_blind id as (c.bump id) (h.verify
      (e := computeEvent id (c.bump id).seq (c.bump id).clock (c.bump id).lamport.val) rfl)
    exact ⟨c', s', ds', hs, hblind, h'⟩
  | .send addr msg :: as, c, s, ds, h => by
    obtain ⟨m, s₁, ds₁, hnext, hnext₀, h₁⟩ := nextMsgId_blind h id
    obtain ⟨env, henv⟩ : ∃ env, env = (c.bump id).envelope id m addr msg := ⟨_, rfl⟩
    have hverified := h₁.verify (e := emitEvent id (c.bump id).seq env) rfl
    have hdelivered : Blinded log ((s₁.verify (emitEvent id (c.bump id).seq env)).deliver env) _ :=
      ⟨hverified.recorded, hverified.ids, hverified.silent⟩
    obtain ⟨c', s', ds', hs, hblind, h'⟩ := performAll_blind id as (c.bump id) hdelivered
    refine ⟨c', s', ds', ?_, ?_, h'⟩
    · rw [← hs, Context.performAll, Context.perform, Context.send]
      simp only [Dispatch.nextMsgId, hnext, ← henv]
      rfl
    · rw [← hblind, Context.performAll, Context.perform, Context.send]
      simp only [Dispatch.nextMsgId, hnext₀, ← henv]
      rfl

/-- The seeding loop does not see the index. -/
theorem seedOrigins_blind (origins : List (ActorId × Boxed τ α)) :
    ∀ (wes : List CausalEvent) (k : Nat) {s : ReplayState τ α} {ds : List Divergence},
      Blinded log s ds → ∃ ds', ReplayState.seedOrigins origins k wes (s.blind ds) =
        (ReplayState.seedOrigins origins k wes s).blind ds' ∧
        Blinded log (ReplayState.seedOrigins origins k wes s) ds'
  | [], _, _, ds, h => ⟨ds, rfl, h⟩
  | we :: wes, k, s, ds, h => by
    have hstep : ∃ ds₁, (s.blind ds).seedOrigin we origins[k]? =
        (s.seedOrigin we origins[k]?).blind ds₁ ∧
        Blinded log (s.seedOrigin we origins[k]?) ds₁ := by
      unfold ReplayState.seedOrigin
      cases we.parsedMid with
      | none => exact ⟨_, rfl, h.diverge we.id (by simp)⟩
      | some m =>
        cases origins[k]? with
        | none => exact ⟨_, rfl, h.diverge we.id (by simp)⟩
        | some o => exact ⟨ds, rfl, h.recorded, h.ids, h.silent⟩
    obtain ⟨ds₁, heq, h₁⟩ := hstep
    rw [ReplayState.seedOrigins, ReplayState.seedOrigins, heq]
    exact seedOrigins_blind origins wes (k + 1) h₁

end Passes

/-! ## The driver without the index -/

/-- The same driver without the index, and with other divergences. -/
def Driver.blind (d : Driver τ α σ) (ds : List Divergence) : Driver τ α σ :=
  { d with state := d.state.blind ds }

/-- With and without the index a step of the driver fails alike or ends in the same state. -/
inductive Blinds (log : List CausalEvent) :
    Except Abort (Driver τ α σ) → Except Abort (Driver τ α σ) → Prop
  | error (e : Abort) : Blinds log (.error e) (.error e)
  | ok {d : Driver τ α σ} {ds : List Divergence} (h : Blinded log d.state ds) :
    Blinds log (.ok d) (.ok (d.blind ds))

theorem Blinds.bind {log : List CausalEvent} {x x₀ : Except Abort (Driver τ α σ)}
    {f : Driver τ α σ → Except Abort (Driver τ α σ)} (h : Blinds log x x₀)
    (hf : ∀ d ds, Blinded log d.state ds → Blinds log (f d) (f (d.blind ds))) :
    Blinds log (x >>= f) (x₀ >>= f) := by
  cases h with
  | error e => exact .error e
  | ok h => exact hf _ _ h

section Driving

variable [DecidableEq τ] {log : List CausalEvent} {d : Driver τ α σ} {ds : List Divergence}

theorem drive_blind [Counter] (h : Blinded log d.state ds) (a : ActorId)
    (msg : Option (Boxed τ α)) :
    Blinds log (d.drive a msg) ((d.blind ds).drive a msg) := by
  unfold Driver.drive Driver.blind
  dsimp only
  cases d.actors[a]? with
  | none => exact .error _
  | some t =>
    dsimp only
    cases Driver.invoke t msg with
    | none => exact .error _
    | some p =>
      obtain ⟨c', s', ds', hs, hblind, h'⟩ := performAll_blind a p.2 (d.clocks a) h
      dsimp only
      rw [hs, hblind]
      exact .ok h'

theorem startAll_blind [Counter] : ∀ (names : List ActorId) {d : Driver τ α σ}
    {ds : List Divergence},
    Blinded log d.state ds → Blinds log (d.startAll names) ((d.blind ds).startAll names)
  | [], _, _, h => .ok h
  | a :: names, _, _, h =>
    (drive_blind h a none).bind fun _ _ h' => startAll_blind names h'

theorem recvStep_blind [Counter] (h : Blinded log d.state ds) (ev : CausalEvent) :
    Blinds log (d.recvStep ev) ((d.blind ds).recvStep ev) := by
  unfold Driver.recvStep
  by_cases hop : ev.op ≠ .recv
  · rw [if_pos hop, if_pos hop]
    exact .ok h
  · rw [if_neg hop, if_neg hop]
    cases ev.parsedMid with
    | none =>
      exact .ok (d := { d with state := d.state.diverge ev.id .recvWithoutMsgId })
        (h.diverge ev.id (by simp))
    | some m =>
      dsimp only
      have hpending : (d.blind ds).state.pending m = d.state.pending m := rfl
      rw [hpending]
      cases d.state.pending m with
      | none =>
        exact .ok (d := { d with state := d.state.diverge ev.id .noMessage })
          (h.diverge ev.id (by simp))
      | some env =>
        have hconsumed : Blinded log (d.state.consume ev m env) ds := ⟨h.recorded, h.ids, h.silent⟩
        obtain ⟨d₁, ds₁, hd₁, hblind, h₁⟩ : ∃ d₁ ds₁,
            { d with state := d.state.consume ev m env }.stampRecv ev.actor env = d₁ ∧
            { d.blind ds with state := (d.blind ds).state.consume ev m env }.stampRecv ev.actor env =
              d₁.blind ds₁ ∧ Blinded log d₁.state ds₁ :=
          ⟨_, _, rfl, rfl, hconsumed.verify rfl⟩
        dsimp only
        rw [hd₁, hblind]
        by_cases hactor : ev.actor ∈ d₁.actors
        · have hactor₀ : ev.actor ∈ (d₁.blind ds₁).actors := hactor
          rw [if_neg (not_not.mpr hactor), if_neg (not_not.mpr hactor₀)]
          exact drive_blind h₁ ev.actor (some env.msg)
        · have hactor₀ : ev.actor ∉ (d₁.blind ds₁).actors := hactor
          rw [if_pos hactor, if_pos hactor₀]
          exact .ok (d := { d₁ with state := d₁.state.diverge ev.id .notRebuilt })
            (h₁.diverge ev.id (by simp))

theorem recvLoop_blind [Counter] : ∀ (evs : List CausalEvent) {d : Driver τ α σ}
    {ds : List Divergence},
    Blinded log d.state ds → Blinds log (d.recvLoop evs) ((d.blind ds).recvLoop evs)
  | [], _, _, h => .ok h
  | ev :: evs, _, _, h =>
    (recvStep_blind h ev).bind fun _ _ h' => recvLoop_blind evs h'

end Driving

/-! ## The verdict on a shuffled log -/

section Verdict

variable [DecidableEq τ] {sys : ReplaySystem τ α σ} {log log' timeline : List CausalEvent}
  {r : Replayed} {d₀ : Driver τ α σ}

/-- The driver of `replay` without the index and the completeness pass: the actors re-executed over
the timeline. -/
def ReplaySystem.reenact [Counter] (sys : ReplaySystem τ α σ) (log timeline : List CausalEvent) :
    Except Abort (Driver τ α σ) := do
  let d ← Driver.startAll sys.actors.keys {
    actors := sys.actors
    clocks := fun _ => .zero
    state := ReplayState.seedOrigins sys.origins 0 ((RecordedIndex.build log).emitsByActor "world")
      ((ReplayState.init log).blind []) }
  Driver.recvLoop timeline d

/-- A re-enactment in order: every origin was there, every send had a recorded msg_id and every recv
its message and its actor (nothing but missing counterparts is reported), every produced event is a
recorded one, and every recorded id was produced. -/
structure Sound (log : List CausalEvent) (d₀ : Driver τ α σ) : Prop where
  quiet : ∀ x ∈ d₀.state.divergences, x.detail = .noCounterpart
  recorded : ∀ e ∈ d₀.state.journal.events, e ∈ log
  covered : ∀ e ∈ log, e.id ∈ d₀.state.produced

omit [DecidableEq τ] in
theorem Sound.perm (h : Sound log d₀) (hp : log.Perm log') : Sound log' d₀ :=
  ⟨h.quiet, fun e he => hp.mem_iff.mp (h.recorded e he),
    fun e he => h.covered e (hp.mem_iff.mpr he)⟩

/-- The order of the lines does not matter to a re-enactment. -/
theorem reenact_perm [Counter] (hwf : WellFormed log) (hp : log.Perm log') :
    sys.reenact log timeline = sys.reenact log' timeline := by
  have hemits := emits_perm hwf hp
  have hinit : (ReplayState.init log : ReplayState τ α).blind [] = (ReplayState.init log').blind [] := by
    simp only [ReplayState.blind, ReplayState.init, RecordedIndex.blind, hemits]
  rw [ReplaySystem.reenact, ReplaySystem.reenact, hemits, hinit]

/-- A replay of an accepted log: the walk of its timeline, and the completeness pass. -/
theorem replay_eq [Counter] (hlog : replayLog log = .ok r) : sys.replay log =
    (Driver.startAll sys.actors.keys (sys.seeded log) >>= Driver.recvLoop r.timeline).map
      fun d => (⟨r, (d.state.complete log).divergences⟩ : ReplayOutcome) := by
  simp only [ReplaySystem.replay, ReplaySystem.replayRun, hlog, ReplaySystem.reexecute, bind,
    Except.bind, pure, Except.pure, Except.map]
  cases Driver.startAll sys.actors.keys (sys.seeded log) with
  | error e => rfl
  | ok d =>
    dsimp only
    cases d.recvLoop r.timeline <;> rfl

omit [DecidableEq τ] in
theorem complete_journal : ∀ (es : List CausalEvent) (s : ReplayState τ α),
    (s.complete es).journal = s.journal
  | [], _ => rfl
  | e :: es, s => by
    rw [ReplayState.complete, complete_journal es]
    split <;> rfl

/-- **A replay is a re-enactment, and a lookup of every produced event.** -/
theorem replay_reenact [Counter] (sys : ReplaySystem τ α σ) (hlog : replayLog log = .ok r) :
    (∃ e, sys.reenact log r.timeline = .error e ∧ sys.replay log = .error e) ∨
    ∃ d₀ out, sys.reenact log r.timeline = .ok d₀ ∧ sys.replay log = .ok out ∧
      (∀ e ∈ d₀.state.journal.events, e.id = idOf e.actor e.seq) ∧
      (out.divergences = [] ↔ Sound log d₀ ∧
        ∀ e ∈ d₀.state.journal.events, (RecordedIndex.build log).byId e.id = some e) ∧
      ∃ d, sys.reexecute log r.timeline = .ok d ∧ d.state.divergences = out.divergences ∧
        d.state.journal = d₀.state.journal := by
  have hinit : Blinded log (ReplayState.init log : ReplayState τ α) [] :=
    ⟨rfl, fun e he => (by cases he), by simp [ReplayState.init]⟩
  obtain ⟨ds, hds, hseeded⟩ := seedOrigins_blind sys.origins
    ((RecordedIndex.build log).emitsByActor "world") 0 hinit
  have hwalk : Blinds log (Driver.startAll sys.actors.keys (sys.seeded log) >>=
      Driver.recvLoop r.timeline) (sys.reenact log r.timeline) := by
    unfold ReplaySystem.reenact
    rw [hds]
    exact (startAll_blind (d := sys.seeded log) _ hseeded).bind fun _ _ => recvLoop_blind r.timeline
  obtain ⟨x, hx⟩ : ∃ x, (Driver.startAll sys.actors.keys (sys.seeded log) >>=
      Driver.recvLoop r.timeline) = x := ⟨_, rfl⟩
  obtain ⟨x₀, hx₀⟩ : ∃ x₀, sys.reenact log r.timeline = x₀ := ⟨_, rfl⟩
  have hout : sys.replay log = _ := replay_eq hlog
  rw [hx] at hout
  rw [hx, hx₀] at hwalk
  cases hwalk with
  | error e => exact .inl ⟨e, hx₀, hout⟩
  | @ok d ds h =>
    have hre : sys.reexecute log r.timeline = .ok { d with state := d.state.complete log } := by
      obtain ⟨d₁, hstart, hloop⟩ := Except.bind_eq_ok.mp hx
      exact Except.bind_eq_ok.mpr ⟨d₁, hstart, Except.bind_eq_ok.mpr ⟨d, hloop, rfl⟩⟩
    refine .inr ⟨_, _, hx₀, hout, h.ids, ?_, _, hre, rfl, complete_journal log d.state⟩
    show (d.state.complete log).divergences = [] ↔ _
    constructor
    · intro hnil
      obtain ⟨hsame, hall⟩ := complete_silent hnil
      rw [hsame] at hnil
      obtain ⟨hquiet, hfound⟩ := h.silent.mp hnil
      exact ⟨⟨hquiet, fun e he => (RecordedIndex.build_byId_some (hfound e he)).1, hall⟩, hfound⟩
    · rintro ⟨hsound, hfound⟩
      have hall : ∀ e ∈ log, e.id ∈ d.state.produced := hsound.covered
      rw [complete_produced hall]
      exact h.silent.mpr ⟨hsound.quiet, hfound⟩

/-- Both replays return an error, or panic alike, or return the same verdict. -/
def SameVerdict : Except Abort ReplayOutcome → Except Abort ReplayOutcome → Prop
  | .ok out, .ok out' => out.isFaithful = out'.isFaithful
  | .error (.error _), .error (.error _) => True
  | .error (.panicked message), .error (.panicked message') => message = message'
  | _, _ => False

theorem isFaithful_iff {out : ReplayOutcome} : out.isFaithful = true ↔ out.divergences = [] :=
  List.isEmpty_iff

theorem SameVerdict.refl (x : Except Abort ReplayOutcome) : SameVerdict x x := by
  rcases x with (_ | _) | _
  · trivial
  · rfl
  · rfl

/-- An order in which the events of a sound re-enactment come last, so that each is found. -/
theorem exists_found (hwf : WellFormed log) {events : List CausalEvent} (hids : ∀ e ∈ events, e.id = idOf e.actor e.seq)
    (hrec : ∀ e ∈ events, e ∈ log) : ∃ log', log.Perm log' ∧
      ∀ e ∈ events, (RecordedIndex.build log').byId e.id = some e := by
  refine ⟨log.filter (fun e => !decide (e ∈ events)) ++ log.filter fun e => decide (e ∈ events), ?_,
    fun e he => ?_⟩
  · exact ((List.filter_append_perm (fun e => decide (e ∈ events)) log).symm.trans
      List.perm_append_comm)
  · refine build_byId_append (List.mem_filter.mpr ⟨hrec e he, by simpa using he⟩) fun f hf hid => ?_
    obtain ⟨hflog, hfe⟩ := List.mem_filter.mp hf
    -- both are produced events, whose ids are their coordinates
    exact hwf.eq_of_id hflog (hrec e he) (hids f (by simpa using hfe)) (hids e he) hid

/-- An order in which a line is the last one. -/
theorem exists_last {f : CausalEvent} (hf : f ∈ log) : ∃ log', log.Perm log' ∧
    (RecordedIndex.build log').byId f.id = some f := by
  refine ⟨log.erase f ++ [f], (List.perm_cons_erase hf).trans (List.perm_append_singleton _ _).symm,
    build_byId_append (List.mem_singleton_self f) fun g hg _ => List.mem_singleton.mp hg⟩

/-- The replay of another order of the lines is the same re-enactment, and its own lookups. -/
theorem replay_shuffled [Counter] (sys : ReplaySystem τ α σ) (hlog : replayLog log = .ok r)
    (hp : log.Perm log') :
    (∃ e, sys.reenact log r.timeline = .error e ∧ sys.replay log' = .error e) ∨
    ∃ d₀ out, sys.reenact log r.timeline = .ok d₀ ∧ sys.replay log' = .ok out ∧
      (∀ e ∈ d₀.state.journal.events, e.id = idOf e.actor e.seq) ∧
      (out.divergences = [] ↔ Sound log d₀ ∧
        ∀ e ∈ d₀.state.journal.events, (RecordedIndex.build log').byId e.id = some e) ∧
      ∃ d, sys.reexecute log' r.timeline = .ok d ∧ d.state.divergences = out.divergences ∧
        d.state.journal = d₀.state.journal := by
  have hacc := replayLog_ok_iff.mp ⟨r, hlog⟩
  obtain ⟨r', hlog'⟩ := replayLog_ok_iff.mpr (hacc.perm hp)
  rw [reenact_perm hacc.wellFormed hp, timeline_perm hp hlog hlog']
  rcases replay_reenact sys hlog' with herror | ⟨d₀, out, hd₀, hout, hids, hiff, hd⟩
  · exact .inl herror
  · refine .inr ⟨d₀, out, hd₀, hout, hids, hiff.trans (and_congr_left fun _ => ?_), hd⟩
    exact ⟨fun h => h.perm hp.symm, fun h => h.perm hp⟩

theorem replay_refused [Counter] {err : ReplayError} (h : replayLog log = .error err) :
    sys.replay log = .error (.error err) := by
  simp only [ReplaySystem.replay, ReplaySystem.replayRun, h, bind, Except.bind]

/-- The lookups of a sound re-enactment succeed in every order exactly where none of them has two
lines to choose from. -/
theorem sameVerdict_iff [Counter] (sys : ReplaySystem τ α σ) (log : List CausalEvent) :
    (∀ log', log.Perm log' → SameVerdict (sys.replay log) (sys.replay log')) ↔
      ∀ r d₀, replayLog log = .ok r → sys.reenact log r.timeline = .ok d₀ → Sound log d₀ →
        ∀ e ∈ d₀.state.journal.events, ∀ f ∈ log, f.id = e.id → f = e := by
  constructor
  · intro hsame r d₀ hlog hd₀ hsound e he f hf hid
    have hwf := (replayLog_ok_iff.mp ⟨r, hlog⟩).wellFormed
    have hverdict : ∀ log', log.Perm log' → ∃ out, sys.replay log' = .ok out ∧
        (∀ e ∈ d₀.state.journal.events, e.id = idOf e.actor e.seq) ∧
        (out.divergences = [] ↔ ∀ e ∈ d₀.state.journal.events,
          (RecordedIndex.build log').byId e.id = some e) := by
      intro log' hp
      rcases replay_shuffled sys hlog hp with
        ⟨_, herr, -⟩ | ⟨d₁, out, hd₁, hout, hids, hiff, -⟩
      · rw [herr] at hd₀
        cases hd₀
      · cases hd₀.symm.trans hd₁
        exact ⟨out, hout, hids, hiff.trans (and_iff_right hsound)⟩
    -- one order in which every lookup succeeds, and one in which that of `e` finds `f`
    obtain ⟨out, hout, hids, -⟩ := hverdict log (.refl _)
    obtain ⟨log₁, hp₁, hfound⟩ := exists_found hwf hids hsound.recorded
    obtain ⟨log₂, hp₂, hlast⟩ := exists_last hf
    obtain ⟨out₁, hout₁, -, hiff₁⟩ := hverdict log₁ hp₁
    obtain ⟨out₂, hout₂, -, hiff₂⟩ := hverdict log₂ hp₂
    have h₁ := hsame log₁ hp₁
    have h₂ := hsame log₂ hp₂
    rw [hout, hout₁] at h₁
    rw [hout, hout₂] at h₂
    have hnil₂ : out₂.divergences = [] := by
      rw [← isFaithful_iff, ← (h₁.symm.trans h₂ : out₁.isFaithful = out₂.isFaithful), isFaithful_iff]
      exact hiff₁.mpr hfound
    have hlookup := hiff₂.mp hnil₂ e he
    rw [← hid, hlast] at hlookup
    exact Option.some.inj hlookup
  · intro hcond log' hp
    cases hlog : replayLog log with
    | error err =>
      have hnot : ¬ ∃ r', replayLog log' = .ok r' := fun hok => by
        obtain ⟨r, hr⟩ := replayLog_ok_iff.mpr ((replayLog_ok_iff.mp hok).perm hp.symm)
        rw [hlog] at hr
        cases hr
      cases hlog' : replayLog log' with
      | error err' =>
        rw [replay_refused hlog, replay_refused hlog']
        trivial
      | ok r' => exact absurd ⟨r', hlog'⟩ hnot
    | ok r =>
      rcases replay_reenact sys hlog with ⟨x, hx, hout⟩ | ⟨d₀, out, hd₀, hout, -, hiff, -⟩ <;>
        rcases replay_shuffled sys hlog hp with
          ⟨x', hx', hout'⟩ | ⟨d₁, out', hd₁, hout', -, hiff', -⟩
      · cases hx.symm.trans hx'
        rw [hout, hout']
        exact .refl _
      · cases hx.symm.trans hd₁
      · cases hd₀.symm.trans hx'
      · cases hd₀.symm.trans hd₁
        rw [hout, hout']
        show out.isFaithful = out'.isFaithful
        rw [Bool.eq_iff_iff, isFaithful_iff, isFaithful_iff, hiff, hiff']
        -- a sound re-enactment finds its events in either order
        refine and_congr_right fun hsound => iff_of_true ?_ ?_ <;> intro e he
        · exact RecordedIndex.build_byId_of_unique (hsound.recorded e he)
            (hcond r d₀ hlog hd₀ hsound e he)
        · exact RecordedIndex.build_byId_of_unique (hp.mem_iff.mp (hsound.recorded e he))
            fun f hf => hcond r d₀ hlog hd₀ hsound e he f (hp.mem_iff.mpr hf)

end Verdict

end Lichtung
