import Lichtung.Prod.Channel

/-!
# Replay rebuilds the system

A replay that raises no alarm could still end in another state than the run it replays.  It does
not: from the log of an idle state, in any order, the driver ends with every actor in the state the
run left it in, with its clocks and its count of sends, and with every envelope that waits for an
actor in `pending`.

Principal results: `Ledger.unread` (what waits is not recorded as received), `Script.reenacted` and
`replay_reconstructs`.
-/

namespace Lichtung.Prod

open Transition CausalHistory

variable {ι τ α σ : Type} {sys : Topology ι τ α σ} {s : Config ι τ α σ} {ls : List (Label ι α)}
  {L : ι → Line ι τ α σ} {log : List CausalEvent} {origin : Option (Envelope τ α)}

/-! ## Messages that wait -/

/-- The messages an actor has still to receive, in order. -/
def Config.inbox (s : Config ι τ α σ) (i : ι) : List (Envelope τ α) :=
  (s.tasks i).pc.holding ++ s.mailbox i

theorem Carries.inbox {P Q : ι → Envelope τ α → Prop} (h : Carries P Q s) {i : ι}
    {env : Envelope τ α} (henv : env ∈ s.inbox i) : P i env := by
  rcases List.mem_append.mp henv with hheld | hmail
  · have htask := h.tasks i
    cases hpc : (s.tasks i).pc with
    | received env' =>
      rw [hpc] at hheld htask
      obtain rfl := List.mem_singleton.mp hheld
      exact htask
    | _ => rw [hpc] at hheld; cases hheld
  · exact h.mailbox i env hmail

section Unread

variable [Fintype ι]

theorem inbox_carried {i : ι} (hd : (s.tasks i).dropped = false) {env : Envelope τ α}
    (henv : env ∈ s.inbox i) : envelopeKey env ∈ s.load (carried ι τ α σ) := by
  have hpart : ∀ {T : Type} (f : T → Multiset Key) (t : ι → T), envelopeKey env ∈ f (t i) →
      envelopeKey env ∈ total f t := fun _ _ h => Multiset.mem_sum.mpr ⟨i, Finset.mem_univ i, h⟩
  rcases List.mem_append.mp henv with hheld | hmail
  · refine Multiset.mem_add.mpr (.inl (Multiset.mem_add.mpr (.inl (hpart _ s.tasks ?_))))
    cases hpc : (s.tasks i).pc with
    | received env' =>
      rw [hpc] at hheld
      obtain rfl := List.mem_singleton.mp hheld
      simp [carried, hd, hpc]
    | _ => rw [hpc] at hheld; cases hheld
  · refine Multiset.mem_add.mpr (.inl (Multiset.mem_add.mpr (.inr (hpart _ s.mailbox ?_))))
    exact Multiset.mem_coe.mpr (List.mem_map_of_mem hmail)

/-- **What is under way is not recorded as received.** -/
theorem Ledger.unread {lost : Multiset Key} (h : Ledger s lost) (hi : Issued s) {k : Key}
    (hk : k ∈ s.load (carried ι τ α σ)) {e : CausalEvent} (he : e ∈ s.events)
    (hop : e.op = .recv) : e.msgId ≠ k.1 := by
  intro heq
  have hnd : ((recordedKeys .emit s.events).map Prod.fst).Nodup := by
    simpa [recordedKeys, messageKey, Function.comp_def] using hi.emits_nodup
  rw [h, Multiset.map_add, Multiset.map_add] at hnd
  -- the received keys and those under way have no msg_id in common
  have hdisj := Multiset.disjoint_of_nodup_add (Multiset.nodup_add.mp hnd).1
  have hrecv : messageKey e ∈ recordedKeys .recv s.events :=
    Multiset.mem_coe.mpr (List.mem_map_of_mem (List.mem_filter.mpr ⟨he, by simpa using hop⟩))
  exact Multiset.disjoint_left.mp hdisj (Multiset.mem_map_of_mem Prod.fst hrecv)
    (Multiset.mem_map.mpr ⟨k, hk, heq.symm⟩)

end Unread

/-- An envelope recorded as sent is on a line, or is the origin. -/
theorem Emitted.sentBy (h1 : ls.countP Label.injects ≤ 1)
    (hfrom : ∀ env ∈ origin, FromOrigin sys ls env)
    (hworld : s.events.filter (·.actor = "world") = origin.toList.map (emitEvent "world" 1))
    {env : Envelope τ α} (h : Emitted sys ls s.events L env) : SentBy L origin env := by
  rcases h with hsent | ⟨hsrc, hmem⟩
  · exact .inl hsent
  · have hmem' : emitEvent "world" 1 env ∈ s.events.filter (·.actor = "world") :=
      List.mem_filter.mpr ⟨hmem, by simp [emitEvent]⟩
    rw [hworld] at hmem'
    obtain ⟨env', henv', heq⟩ := List.mem_map.mp hmem'
    have henv' := Option.mem_toList.mp henv'
    have hmid : env'.msgId = env.msgId := mid_inj.mp (congrArg CausalEvent.msgId heq)
    exact .inr (FromOrigin.unique h1 (hfrom env' henv') hsrc hmid ▸ henv')

/-! ## The end of a replay -/

variable [DecidableEq ι] [DecidableEq τ]

/-- **A script is re-enacted to the end of its lines.** -/
theorem Script.reenacted (hn : Named sys) (hS : Script sys log L origin) {rs : ReplaySystem τ α σ}
    (hr : Rebuilds sys rs) (ho : ∀ env ∈ origin, ∃ m addr msg, env = worldEnvelope sys m addr msg ∧
      rs.origins[0]? = some (sys.name addr, ⟨(sys.actor addr).msgType, msg⟩))
    {r : Replayed} (hlog : replayLog log = .ok r) (hT : Canonical sys log L r.timeline) :
    ∃ d, rs.replayRun log = .ok (r, d) ∧ Staged sys log L origin [] r.timeline L d := by
  obtain ⟨x, d₁, hstart, hx⟩ :=
    (Staged.seeded hS hr ho).startAll hn hS Std.ExtTreeMap.nodup_keys hr.keys
  have hT' : Canonical sys log L ([] ++ r.timeline) := hT
  obtain ⟨y, d, hloop, hy⟩ := hx.recvLoop hn hS hT'
  rw [List.nil_append] at hy
  obtain rfl : y = L := funext (hy.state.finished hT fun i => (hy.ready i (by simp)).1)
  have hcomplete : d.state.complete log = d.state := by
    refine complete_produced fun e he => ?_
    rcases hS.covers e he with ⟨i, hi⟩ | ⟨env, henv, rfl⟩
    · exact hy.state.produced i e hi
    · exact hy.state.seeded env henv
  refine ⟨d, ?_, hy⟩
  simp only [ReplaySystem.replayRun, hlog, ReplaySystem.reexecute, hstart, hloop, bind,
    Except.bind, pure, Except.pure, hcomplete]

/-- The driver stands where the run does. -/
structure Rebuilt (sys : Topology ι τ α σ) (s : Config ι τ α σ) (d : Driver τ α σ) : Prop where
  silent : d.state.divergences = []
  actors : ∀ i, d.actors[sys.name i]? =
    some ⟨(sys.actor i).mapAddr sys.addr, (s.tasks i).state⟩
  clocks : ∀ i, d.clocks (sys.name i) = (s.tasks i).stamps
  sends : ∀ i, d.state.sendCount (sys.name i) =
    (s.events.filter fun e => e.op = .emit ∧ e.actor = sys.name i).length
  pending : ∀ i, (s.tasks i).dropped = false → ∀ env ∈ s.inbox i,
    d.state.pending env.msgId = some env

variable [Fintype ι]

omit [DecidableEq ι] [DecidableEq τ] in
theorem Performed.rebuilt (h : Performed sys ls s L) (ha : Account sys s)
    (hidle : ∀ i, (s.tasks i).pc.idle) (hp : log.Perm s.events)
    (hsent : ∀ {env}, Emitted sys ls s.events L env → SentBy L origin env) {r : Replayed}
    (hlog : replayLog log = .ok r) {d : Driver τ α σ}
    (hd : Staged sys log L origin [] r.timeline L d) : Rebuilt sys s d := by
  have hrunning : ∀ i, (s.tasks i).pc ≠ .spawned := by
    intro i heq
    have := hidle i
    rw [heq] at this
    exact this
  refine ⟨hd.state.silent, fun i => ?_, fun i => ?_, fun i => ?_, fun i hlive env henv => ?_⟩
  · rw [(hd.ready i (by simp)).2, ((h.played.task i).running (hrunning i)).1]
  · rw [hd.state.clocks i, ((h.played.task i).running (hrunning i)).2.1]
  · have hemits := congrArg List.length (Line.Path.consistent (h.played.path i)).emits
    rw [List.length_map, List.length_map, h.played.events i, List.filter_filter] at hemits
    rw [hd.state.sends i, ← hemits]
    simp
  · obtain ⟨lost, hl⟩ := ha.ledger
    refine hd.state.pending env (hsent (h.carried.inbox henv)) fun ev hev hop => ?_
    have hrecorded := hp.mem_iff.mp ((timeline_extends hlog).perm.mem_iff.mp hev)
    exact hl.unread ha.issued (inbox_carried hlive henv) hrecorded hop

/-- **Replay rebuilds the system.**  Take a run with at most one `send_external`, a state of it in
which every `started` has returned and no handler is running, and its log in any order.  Replayed on
the same actors with the same origin, it ends without divergences and with every actor in the state,
with the clocks and with the number of sends of the run; and every message that a live actor has
still to receive waits in `pending`. -/
theorem replay_reconstructs (hn : Named sys) (h : Run sys ls s) (h1 : ls.countP Label.injects ≤ 1)
    (hidle : ∀ i, (s.tasks i).pc.idle) (hm : s.msgId < 2 ^ 64) (hp : log.Perm s.events)
    {rs : ReplaySystem τ α σ} (hr : Rebuilds sys rs)
    (ho : rs.origins = ls.filterMap (Label.origin sys)) :
    ∃ r d, rs.replayRun log = .ok (r, d) ∧ Rebuilt sys s d := by
  have ha := h.account hn
  obtain ⟨L, hL⟩ := h.performed hn
  have hw : recording.count s.events "world" ≤ 1 := by
    have := h.origins hn
    omega
  have hacc := ha.accepted hw
  obtain ⟨origin, hfrom, hworld⟩ := hL.origin hn hw
  have hS := hL.script hworld hn ha h1 hfrom (ha.ids_nodup hacc.wellFormed.coords) hidle hm hp
  obtain ⟨r, hlog⟩ := replayLog_ok_iff.mpr (hacc.perm hp.symm)
  have hsupplied : ∀ env ∈ origin, ∃ m addr msg, env = worldEnvelope sys m addr msg ∧
      rs.origins[0]? = some (sys.name addr, ⟨(sys.actor addr).msgType, msg⟩) := by
    intro env henv
    obtain ⟨m, addr, msg, hl, rfl⟩ := hfrom env henv
    exact ⟨m, addr, msg, rfl, ho ▸ origins_head h1 hl⟩
  obtain ⟨d, hrun, hd⟩ := hS.reenacted hn hr hsupplied hlog (hL.canonical ha hp hlog)
  exact ⟨r, d, hrun, hL.rebuilt ha hidle hp (·.sentBy h1 hfrom hworld) hlog hd⟩

/-- A courier that adds up the numbers it passes on, and a sink that adds up those it receives. -/
def tallies : Topology Bool Unit Nat Nat where
  name := couriers.name
  actor courier :=
    ⟨(), fun s => (s, []), fun s n => (s + n, if courier then [.send false n] else [])⟩
  init _ := 0

/-- The courier has passed the number on, and the sink has not received it yet. -/
theorem replay_reconstructs_tallies : ∃ s r d, Run tallies (deliveredRun.take 15) s ∧
    ((tallies.respawn [false, true]).origin (tallies.addr true) 7).replayRun s.events.reverse =
      .ok (r, d) ∧ (s.tasks true).state = 7 ∧ (s.inbox false).length = 1 ∧ Rebuilt tallies s d := by
  have hn : Named tallies := ⟨by decide, by decide⟩
  obtain ⟨s, hrun, hstate, hinbox, hidle, hm⟩ : ∃ s, Run tallies (deliveredRun.take 15) s ∧
      (s.tasks true).state = 7 ∧ (s.inbox false).length = 1 ∧ (∀ i, (s.tasks i).pc.idle) ∧
      s.msgId = 2 := by
    refine ⟨_, rfl, rfl, rfl, fun i => ?_, rfl⟩
    cases i <;> trivial
  have hr : Rebuilds tallies (tallies.respawn [false, true]) := rebuilds_of_respawn hn (by decide)
  obtain ⟨r, d, hout, hd⟩ := replay_reconstructs hn hrun (by decide) hidle (by omega)
    s.events.reverse_perm (hr.origin (tallies.addr true) 7) rfl
  exact ⟨s, r, d, hrun, hout, hstate, hinbox, hd⟩

end Lichtung.Prod
