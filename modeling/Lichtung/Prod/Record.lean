import Lichtung.Prod.Causality
import Lichtung.Replay.Canonical

/-!
# The log as it is written

Tasks record concurrently, and a line stands where its push came.  An emit is recorded before its
envelope is put into a mailbox, and a recv before its handler runs, so a line never comes before one
of its causes, whatever the schedule and whichever tasks die.

Principal results: `Records.advances` (an event carries the stamps its actor has just advanced),
`Ordered.step` (what every step keeps about the lines), `raw_log_in_order` (every beginning of the
log is causally closed) and `timeline_is_lamport_order` (the canonical timeline of the log).
-/

namespace Lichtung.Prod

open Transition

variable {ι τ α σ : Type} [DecidableEq ι] [DecidableEq τ] {sys : Topology ι τ α σ}
  {s s' : Config ι τ α σ}

/-! ## What a step writes -/

variable (sys) in
/-- A step records nothing, an event of one actor with the stamps it advances, or a `world`
emit. -/
inductive Advances (s s' : Config ι τ α σ) : Prop where
  | nothing (hev : s'.events = s.events) (hst : s'.stamps = s.stamps)
  | own (i : ι) (e : CausalEvent) (c : Stamps) (hactor : e.actor = sys.name i)
      (hseq : e.seq = c.seq) (hlamport : e.lamport = c.lamport.val)
      (hnext : c.seq = (s.stamps i).seq + 1) (hlater : (s.stamps i).lamport.val < c.lamport.val)
      (hsent : e.op = .recv → ∃ m ∈ s.events, MessageOrder m e ∧ m.lamport < e.lamport)
      (hev : s'.events = s.events ++ [e]) (hst : s'.stamps = Function.update s.stamps i c)
  | world (e : CausalEvent) (hactor : e.actor = "world") (hseq : e.seq = 1) (hop : e.op = .emit)
      (hev : s'.events = s.events ++ [e]) (hst : s'.stamps = s.stamps)

/-- **An event carries the stamps its actor has just advanced, and a recv quotes an emit recorded
before it with a smaller lamport.** -/
theorem Records.advances (h : Records sys s s') (ht : Traced s) : Advances sys s s' := by
  cases h with
  | nothing hev hst hplay => exact .nothing hev hst
  | compute i phase rest c hpc hc hev htasks =>
    refine .own i _ c rfl rfl rfl (by rw [hc]; rfl) ?_ (fun hop => by cases hop) hev
      (stamps_task htasks rfl)
    rw [hc, Stamps.bump_lamport, Lamport.tick_val]
    omega
  | emit i phase rest addr msg m c env hpc hc henv hev htasks =>
    refine .own i _ c rfl rfl (by rw [henv]; rfl) (by rw [hc]; rfl) ?_ (fun hop => by cases hop) hev
      (stamps_task htasks rfl)
    rw [hc, Stamps.bump_lamport, Lamport.tick_val]
    omega
  | recv i c env hpc hc hev htasks =>
    obtain ⟨seq, hsent⟩ : Sent s.events env := by
      have := ht.tasks i
      rwa [hpc] at this
    have hlamport : c.lamport.val = max (s.stamps i).lamport.val env.lamport.val + 1 := by
      rw [hc, Stamps.receive_lamport, Lamport.update_val]
    refine .own i _ c rfl rfl rfl (by rw [hc]; rfl) (by omega) (fun _ => ?_) hev
      (stamps_task htasks rfl)
    refine ⟨_, hsent, ⟨rfl, rfl, _, rfl, rfl⟩, ?_⟩
    show env.lamport.val < c.lamport.val
    omega
  | world x hx hstage hev htasks =>
    exact .world _ rfl rfl rfl hev (by funext i; rw [Config.stamps, htasks]; rfl)

/-! ## What every step keeps -/

/-- The events of one actor. -/
def ofActor (log : List CausalEvent) (a : ActorId) : List CausalEvent :=
  log.filter (·.actor = a)

theorem mem_ofActor {log : List CausalEvent} {a : ActorId} {e : CausalEvent} :
    e ∈ ofActor log a ↔ e ∈ log ∧ e.actor = a := by
  unfold ofActor
  rw [List.mem_filter, decide_eq_true_eq]

theorem ofActor_snoc (log : List CausalEvent) (a : ActorId) (e : CausalEvent) :
    ofActor (log ++ [e]) a = ofActor log a ++ if e.actor = a then [e] else [] := by
  unfold ofActor
  rw [List.filter_append]
  by_cases h : e.actor = a
  · rw [if_pos h, List.filter_cons_of_pos (by simpa using h), List.filter_nil]
  · rw [if_neg h, List.filter_cons_of_neg (by simpa using h), List.filter_nil]

/-- The lines of the log, each in order and no recv before its emit. -/
structure Ordered (sys : Topology ι τ α σ) (s : Config ι τ α σ) : Prop where
  actors : ∀ e ∈ s.events, (∃ i, e.actor = sys.name i) ∨ e.actor = "world" ∧ e.seq = 1
  seqs : ∀ i, (ofActor s.events (sys.name i)).map (·.seq) = List.range' 1 (s.stamps i).seq
  lamports : ∀ i, (ofActor s.events (sys.name i)).Pairwise fun a b => a.lamport < b.lamport
  reached : ∀ i, ∀ e ∈ ofActor s.events (sys.name i), e.lamport ≤ (s.stamps i).lamport.val
  recvs : ∀ pre r post, s.events = pre ++ r :: post → r.op = .recv →
    ∃ m ∈ pre, MessageOrder m r ∧ m.lamport < r.lamport

omit [DecidableEq ι] [DecidableEq τ] in
theorem Ordered.init (sys : Topology ι τ α σ) : Ordered sys (Config.init sys) where
  actors := fun e he => by cases he
  seqs := fun i => rfl
  lamports := fun i => .nil
  reached := fun i e he => by cases he
  recvs := fun pre r post he => by simp [Config.init] at he

omit [DecidableEq ι] [DecidableEq τ] in
/-- The last event may be a recv, the others were there before. -/
theorem Ordered.recvs_snoc (h : Ordered sys s) {e : CausalEvent}
    (he : e.op = .recv → ∃ m ∈ s.events, MessageOrder m e ∧ m.lamport < e.lamport) :
    ∀ pre r post, s.events ++ [e] = pre ++ r :: post → r.op = .recv →
      ∃ m ∈ pre, MessageOrder m r ∧ m.lamport < r.lamport := by
  intro pre r post heq hop
  rcases post.eq_nil_or_concat with rfl | ⟨post, x, rfl⟩
  · obtain ⟨rfl, hr⟩ := List.append_inj' heq rfl
    obtain rfl : e = r := by simpa using hr
    exact he hop
  · rw [List.concat_eq_append, ← List.cons_append, ← List.append_assoc] at heq
    exact h.recvs pre r post (List.append_inj' heq rfl).1 hop

omit [DecidableEq τ] in
theorem Ordered.step (hn : Named sys) (h : Ordered sys s) (ha : Advances sys s s') :
    Ordered sys s' := by
  cases ha with
  | nothing hev hst =>
    refine ⟨?_, ?_, ?_, ?_, ?_⟩
    · rw [hev]; exact h.actors
    · rw [hev, hst]; exact h.seqs
    · rw [hev]; exact h.lamports
    · rw [hev, hst]; exact h.reached
    · rw [hev]; exact h.recvs
  | own i e c hactor hseq hlamport hnext hlater hsent hev hst =>
    have hline : ofActor s'.events (sys.name i) = ofActor s.events (sys.name i) ++ [e] := by
      rw [hev, ofActor_snoc, if_pos hactor]
    have hother : ∀ j, j ≠ i → ofActor s'.events (sys.name j) = ofActor s.events (sys.name j) ∧
        s'.stamps j = s.stamps j := by
      intro j hij
      have hne : e.actor ≠ sys.name j := by
        rw [hactor]
        exact hn.injective.ne (Ne.symm hij)
      rw [hev, ofActor_snoc, if_neg hne, List.append_nil, hst, Function.update_of_ne hij]
      exact ⟨rfl, rfl⟩
    have hself : s'.stamps i = c := by rw [hst, Function.update_self]
    refine ⟨?_, fun j => ?_, fun j => ?_, fun j => ?_, ?_⟩
    · rw [hev]
      exact List.forall_mem_append.mpr ⟨h.actors, List.forall_mem_singleton.mpr (.inl ⟨i, hactor⟩)⟩
    · by_cases hij : j = i
      · subst hij
        rw [hline, hself, hnext, List.map_append, h.seqs, List.map_singleton, hseq, hnext,
          List.range'_concat, Nat.one_mul, Nat.add_comm 1]
      · rw [(hother j hij).1, (hother j hij).2]
        exact h.seqs j
    · by_cases hij : j = i
      · subst hij
        rw [hline]
        refine List.pairwise_append.mpr ⟨h.lamports j, List.pairwise_singleton _ e, ?_⟩
        intro f hf g hg
        obtain rfl := List.mem_singleton.mp hg
        have := h.reached j f hf
        omega
      · rw [(hother j hij).1]
        exact h.lamports j
    · by_cases hij : j = i
      · subst hij
        rw [hline, hself]
        refine List.forall_mem_append.mpr ⟨fun f hf => ?_, List.forall_mem_singleton.mpr hlamport.le⟩
        exact (h.reached j f hf).trans hlater.le
      · rw [(hother j hij).1, (hother j hij).2]
        exact h.reached j
    · rw [hev]
      exact h.recvs_snoc hsent
  | world e hactor hseq hop hev hst =>
    have hlines : ∀ j, ofActor s'.events (sys.name j) = ofActor s.events (sys.name j) := by
      intro j
      have hne : e.actor ≠ sys.name j := by
        rw [hactor]
        exact (hn.not_world j).symm
      rw [hev, ofActor_snoc, if_neg hne, List.append_nil]
    refine ⟨?_, fun j => ?_, fun j => ?_, fun j => ?_, ?_⟩
    · rw [hev]
      exact List.forall_mem_append.mpr
        ⟨h.actors, List.forall_mem_singleton.mpr (.inr ⟨hactor, hseq⟩)⟩
    · rw [hlines, hst]; exact h.seqs j
    · rw [hlines]; exact h.lamports j
    · rw [hlines, hst]; exact h.reached j
    · rw [hev]
      exact h.recvs_snoc fun hrecv => by rw [hop] at hrecv; cases hrecv

theorem Run.ordered [Fintype ι] {ls : List (Label ι α)} (hn : Named sys) (h : Run sys ls s) :
    Ordered sys s := by
  have hboth : Traced s ∧ Ordered sys s := by
    refine Transition.Run.induct (P := fun s => Traced s ∧ Ordered sys s) ?_ h
      ⟨Carries.init sys, .init sys⟩
    rintro s l s' hstep ⟨ht, ho⟩
    have hs := step_cases sys hstep
    exact ⟨ht.step hs, ho.step hn (hs.records.advances ht)⟩
  exact hboth.2

/-! ## Causal order on the lines -/

section Lines

variable (h : Ordered sys s)
include h

omit [DecidableEq ι] [DecidableEq τ]

theorem Ordered.seqs_lt (i : ι) :
    (ofActor s.events (sys.name i)).Pairwise fun a b => a.seq < b.seq := by
  have hlt : ((ofActor s.events (sys.name i)).map (·.seq)).Pairwise (· < ·) := by
    rw [h.seqs]
    exact List.pairwise_lt_range'
  exact List.pairwise_map.mp hlt

/-- Events in program order are of a spawned actor. -/
theorem Ordered.spawned {a b : CausalEvent} (ha : a ∈ s.events) (hb : b ∈ s.events)
    (hab : ProgramOrder a b) : ∃ i, b.actor = sys.name i := by
  rcases h.actors b hb with hi | ⟨hworld, hseq⟩
  · exact hi
  · -- two `world` emits have the same seq
    have hlt := hab.2
    rcases h.actors a ha with ⟨i, hi⟩ | ⟨-, hseq'⟩
    · exact ⟨i, hab.1.symm.trans hi⟩
    · omega

/-- Lamports grow along program order. -/
theorem Ordered.lamport_lt_of_programOrder {a b : CausalEvent} (ha : a ∈ s.events)
    (hb : b ∈ s.events) (hab : ProgramOrder a b) : a.lamport < b.lamport := by
  obtain ⟨i, hi⟩ := h.spawned ha hb hab
  -- of two events of an actor, in either order, the smaller seq has the smaller lamport
  have hpair : (ofActor s.events (sys.name i)).Pairwise fun (x y : CausalEvent) =>
      (x.seq < y.seq → x.lamport < y.lamport) ∧ (y.seq < x.seq → y.lamport < x.lamport) :=
    ((h.seqs_lt i).and (h.lamports i)).imp fun {x y} hxy => by omega
  have hsymm : Std.Symm fun (x y : CausalEvent) =>
      (x.seq < y.seq → x.lamport < y.lamport) ∧ (y.seq < x.seq → y.lamport < x.lamport) :=
    ⟨fun x y hxy => ⟨hxy.2, hxy.1⟩⟩
  have hne : a ≠ b := by
    rintro rfl
    exact lt_irrefl _ hab.2
  exact (hpair.forall (mem_ofActor.mpr ⟨ha, hab.1.trans hi⟩) (mem_ofActor.mpr ⟨hb, hi⟩) hne).1 hab.2

/-- A line comes after the events before it in program order. -/
theorem Ordered.mem_of_programOrder {pre post : List CausalEvent} {a b : CausalEvent}
    (he : s.events = pre ++ b :: post) (ha : a ∈ s.events) (hab : ProgramOrder a b) : a ∈ pre := by
  obtain ⟨i, hi⟩ := h.spawned ha (by rw [he]; simp) hab
  have hlt := h.seqs_lt i
  have hmem : a ∈ ofActor s.events (sys.name i) := mem_ofActor.mpr ⟨ha, hab.1.trans hi⟩
  have hseq := hab.2
  rw [he, ofActor, List.filter_append, List.filter_cons_of_pos (by simpa using hi)] at hlt hmem
  rcases List.mem_append.mp hmem with hmem | hmem
  · exact (List.mem_filter.mp hmem).1
  · rcases List.mem_cons.mp hmem with rfl | hmem
    · omega
    · have := (List.pairwise_cons.mp (List.pairwise_append.mp hlt).2.1).1 a hmem
      omega

variable [Fintype ι] (hi : Issued s)
include hi

/-- A recv comes after its emit. -/
theorem Ordered.mem_of_messageOrder {pre post : List CausalEvent} {a b : CausalEvent}
    (he : s.events = pre ++ b :: post) (ha : a ∈ s.events) (hab : MessageOrder a b) :
    a ∈ pre ∧ a.lamport < b.lamport := by
  obtain ⟨m, hm, hmb, hlt⟩ := h.recvs pre b post he hab.2.1
  have hmem : m ∈ s.events := by
    rw [he]
    exact List.mem_append_left _ hm
  obtain rfl := hi.sender_unique m hmem a ha b hmb hab
  exact ⟨hm, hlt⟩

/-- **Lamports grow along program order and from an emit to its recv.** -/
theorem Ordered.lamport_lt {a b : CausalEvent} (ha : a ∈ s.events) (hb : b ∈ s.events)
    (hab : ProgramOrder a b ∨ MessageOrder a b) : a.lamport < b.lamport := by
  rcases hab with hab | hab
  · exact h.lamport_lt_of_programOrder ha hb hab
  · obtain ⟨pre, post, he⟩ := List.append_of_mem hb
    exact (h.mem_of_messageOrder hi he ha hab).2

/-- **Causes stand before their effects.** -/
theorem Ordered.mem_of_causallyBefore {a b : CausalEvent} (hab : CausallyBefore s.events a b) :
    ∀ pre post, s.events = pre ++ b :: post → a ∈ pre := by
  have hstep : ∀ {a b : CausalEvent} {pre post : List CausalEvent},
      s.events = pre ++ b :: post → a ∈ s.events → ProgramOrder a b ∨ MessageOrder a b →
        a ∈ pre := by
    intro a b pre post he ha hab
    rcases hab with hab | hab
    · exact h.mem_of_programOrder he ha hab
    · exact (h.mem_of_messageOrder hi he ha hab).1
  induction hab with
  | single hab => exact fun pre post he => hstep he hab.1 hab.2.2
  | tail _ hbc ih =>
    intro pre post he
    obtain ⟨pre', mid, rfl⟩ := List.append_of_mem (hstep he hbc.1 hbc.2.2)
    rw [List.append_assoc, List.cons_append] at he
    exact List.mem_append_left _ (ih pre' _ he)

end Lines

/-! ## Every beginning of the log -/

/-- A log in causal order: an actor's i-th event has seq i, a recv follows exactly one emit with its
msg_id, no two emits share a msg_id, and every event follows its causal predecessors. -/
structure InOrder (sys : Topology ι τ α σ) (log : List CausalEvent) : Prop where
  seqs : ∀ i, (ofActor log (sys.name i)).map (·.seq) =
    List.range' 1 (ofActor log (sys.name i)).length
  recvs : ∀ pre r post, log = pre ++ r :: post → r.op = .recv → ∃ m, r.msgId = some m ∧
    pre.countP (fun e => e.op = .emit ∧ e.msgId = some m) = 1
  emits : ((log.filter (·.op = .emit)).map (·.msgId)).Nodup
  causes : ∀ pre b post, log = pre ++ b :: post → ∀ a, CausallyBefore log a b → a ∈ pre

theorem eq_range'_of_isPrefix {l : List Nat} {n : Nat} (h : l <+: List.range' 1 n) :
    l = List.range' 1 l.length := by
  obtain ⟨rest, hrest⟩ := h
  obtain ⟨k, -, rfl, -⟩ := List.range'_eq_append_iff.mp hrest.symm
  rw [List.length_range']

omit [DecidableEq ι] [DecidableEq τ] in
theorem Ordered.inOrder_of_prefix [Fintype ι] (h : Ordered sys s) (hi : Issued s) {cut : List CausalEvent}
    (hcut : cut <+: s.events) : InOrder sys cut := by
  obtain ⟨rest, hrest⟩ := hcut
  have hsplit : ∀ {pre post : List CausalEvent} {b : CausalEvent}, cut = pre ++ b :: post →
      s.events = pre ++ b :: (post ++ rest) := by
    intro pre post b he
    rw [← hrest, he, List.append_assoc, List.cons_append]
  have hemits : ∀ log : List CausalEvent, log <+: s.events →
      ((log.filter (·.op = .emit)).map (·.msgId)).Nodup := fun log hlog =>
    hi.emits_nodup.sublist ((hlog.sublist.filter _).map _)
  refine ⟨fun i => ?_, fun pre r post he hop => ?_, hemits cut ⟨rest, hrest⟩, ?_⟩
  · have hpre : ((ofActor cut (sys.name i)).map (·.seq)) <+: List.range' 1 (s.stamps i).seq := by
      rw [← h.seqs i, ← hrest, ofActor, ofActor, List.filter_append, List.map_append]
      exact List.prefix_append ..
    have hrange := eq_range'_of_isPrefix hpre
    rwa [List.length_map] at hrange
  · obtain ⟨e, hmem, ⟨heop, -, m, hem, hrm⟩, -⟩ := h.recvs pre r _ (hsplit he) hop
    refine ⟨m, hrm, ?_⟩
    have hnd := hemits pre ⟨r :: (post ++ rest), (hsplit he).symm⟩
    have hone := List.count_eq_one_of_mem hnd
      (List.mem_map.mpr ⟨e, List.mem_filter.mpr ⟨hmem, by simpa using heop⟩, hem⟩)
    rw [List.count, List.countP_map, List.countP_filter] at hone
    rw [← hone]
    refine List.countP_congr fun f _ => ?_
    simp [and_comm]
  · intro pre b post he a hab
    have hmono : CausallyBefore s.events a b := by
      refine Relation.TransGen.mono (fun x y hxy => ?_) _ _ hab
      rw [← hrest]
      exact ⟨List.mem_append_left _ hxy.1, List.mem_append_left _ hxy.2.1, hxy.2.2⟩
    exact h.mem_of_causallyBefore hi hmono pre _ (hsplit he)

/-- **The raw log is written in causal order and every beginning of it is causally closed**: each
is in order by itself, and holds the causes in the whole log of each of its events. -/
theorem raw_log_in_order [Fintype ι] {ls : List (Label ι α)} (hn : Named sys)
    (h : Run sys ls s) {cut : List CausalEvent} (hcut : cut <+: s.events) :
    InOrder sys cut ∧ ∀ b ∈ cut, ∀ a, CausallyBefore s.events a b → a ∈ cut := by
  have ho := h.ordered hn
  have hi := (h.account hn).issued
  refine ⟨ho.inOrder_of_prefix hi hcut, fun b hb a hab => ?_⟩
  obtain ⟨rest, hrest⟩ := hcut
  obtain ⟨pre, post, rfl⟩ := List.append_of_mem hb
  rw [List.append_assoc, List.cons_append] at hrest
  exact List.mem_append_left _ (ho.mem_of_causallyBefore hi hab pre _ hrest.symm)

/-- The lone actor dies while handling its origin. -/
theorem raw_log_in_order_lone : ∃ s, Run lone dyingRun s ∧ s.events.length = 2 ∧
    InOrder lone s.events := by
  obtain ⟨s, hrun, hlen⟩ : ∃ s, Run lone dyingRun s ∧ s.events.length = 2 := ⟨_, rfl, rfl⟩
  exact ⟨s, hrun, hlen, (raw_log_in_order lone_named hrun List.prefix_rfl).1⟩

/-! ## Lamport order -/

/-- **On production logs the canonical timeline is the Lamport order.**  With at most one
`send_external` the recorded lamports grow along program order and from an emit to its recv, so the
timeline is the log sorted by (lamport, actor, seq), as it is for every accepted log whose lamports
grow along the reconstructed edges. -/
theorem timeline_is_lamport_order [Fintype ι] (hn : Named sys) :
    (∀ (ls : List (Label ι α)) (s : Config ι τ α σ), Run sys ls s →
      ls.countP Label.injects ≤ 1 →
      (∀ a ∈ s.events, ∀ b ∈ s.events, ProgramOrder a b ∨ MessageOrder a b →
        a.lamport < b.lamport) ∧
      ∃ r, replayLog s.events = .ok r ∧
        r.timeline = s.events.insertionSort fun a b => a.timelineKey ≤ b.timelineKey) ∧
    ∀ log es r, Poset.buildEdges log = .ok es → replayLog log = .ok r →
      (∀ i j, EdgeGraph.Edge es i j → (eventAt log i).lamport < (eventAt log j).lamport) →
      r.timeline = log.insertionSort fun a b => a.timelineKey ≤ b.timelineKey := by
  refine ⟨fun ls s h h1 => ?_, fun log es r hes hr hup => timeline_sorted hr hes hup⟩
  have hacc := h.account hn
  have hup : ∀ a ∈ s.events, ∀ b ∈ s.events, ProgramOrder a b ∨ MessageOrder a b →
      a.lamport < b.lamport := fun a ha b hb => (h.ordered hn).lamport_lt hacc.issued ha hb
  have hok : Accepted s.events := hacc.accepted (by have := h.origins hn; omega)
  obtain ⟨r, hr⟩ := replayLog_ok_iff.mpr hok
  obtain ⟨es, hes, -, -⟩ := replayLog_ok.mp hr
  refine ⟨hup, r, hr, timeline_sorted hr hes fun i j he => ?_⟩
  refine hup _ (eventAt_mem _ i) _ (eventAt_mem _ j) ((Poset.edge_cases hes he).imp_right fun hp => ?_)
  exact (hacc.written _ (eventAt_mem _ j)).paired.mp hp

theorem timeline_is_lamport_order_lone : ∃ s r, Run lone dyingRun s ∧ s.events.length = 2 ∧
    replayLog s.events = .ok r ∧
      r.timeline = s.events.insertionSort fun a b => a.timelineKey ≤ b.timelineKey := by
  obtain ⟨s, hrun, hlen⟩ : ∃ s, Run lone dyingRun s ∧ s.events.length = 2 := ⟨_, rfl, rfl⟩
  obtain ⟨r, hr, htimeline⟩ := ((timeline_is_lamport_order lone_named).1 _ s hrun (by decide)).2
  exact ⟨s, r, hrun, hlen, hr, htimeline⟩

end Lichtung.Prod
