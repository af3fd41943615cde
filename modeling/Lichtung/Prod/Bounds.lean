import Lichtung.Schema
import Lichtung.Prod.Performance

/-!
# How far the counters of a run get

A line advances its sequence number, its Lamport stamp and its own clock component by one with each
event it records, and takes over no more than was recorded before.  So no counter of an event is
larger than its position in the log, whatever the interleaving and however many origins there are:
a run overflows no `u64` before it has recorded 2^64 events, and its events can be written.  What is
written keeps to the event schema, unless an actor has no name.

Principal results: `Bounded.step`, `counters_bounded` and `log_conforms`.
-/

namespace Lichtung.Prod

open Transition

variable {ι τ α σ : Type}

/-! ## Stamps below a bound -/

/-- Every counter of the event is at most `n`. -/
structure EventWithin (n : Nat) (e : CausalEvent) : Prop where
  seq : e.seq ≤ n
  lamport : e.lamport ≤ n
  vclock : ∀ k, e.vclock.components k ≤ n

/-- Every stamp of an actor is at most `n`. -/
structure StampsWithin (n : Nat) (c : Stamps) : Prop where
  seq : c.seq ≤ n
  lamport : c.lamport.val ≤ n
  clock : ∀ k, c.clock.get k ≤ n

/-- Every stamp of the envelope is at most `n`. -/
structure EnvelopeWithin (n : Nat) (env : Envelope τ α) : Prop where
  lamport : env.lamport.val ≤ n
  vclock : ∀ k, env.vclock.get k ≤ n

theorem StampsWithin.zero : StampsWithin 0 .zero :=
  ⟨Nat.le_refl _, Nat.le_refl _, fun k => (VectorClock.get_new k).le⟩

theorem StampsWithin.mono {m n : Nat} {c : Stamps} (h : StampsWithin m c) (hmn : m ≤ n) :
    StampsWithin n c :=
  ⟨h.seq.trans hmn, h.lamport.trans hmn, fun k => (h.clock k).trans hmn⟩

theorem EnvelopeWithin.mono {m n : Nat} {env : Envelope τ α} (h : EnvelopeWithin m env)
    (hmn : m ≤ n) : EnvelopeWithin n env :=
  ⟨h.lamport.trans hmn, fun k => (h.vclock k).trans hmn⟩

theorem StampsWithin.bump {n : Nat} {c : Stamps} (h : StampsWithin n c) (id : ActorId) :
    StampsWithin (n + 1) (c.bump id) where
  seq := Nat.succ_le_succ h.seq
  lamport := Nat.succ_le_succ h.lamport
  clock := by
    intro k
    rw [Stamps.bump_get]
    have := h.clock k
    have := h.clock id
    split <;> omega

theorem StampsWithin.receive {n : Nat} {c : Stamps} (h : StampsWithin n c) (id : ActorId)
    {env : Envelope τ α} (henv : EnvelopeWithin n env) :
    StampsWithin (n + 1) (c.receive id env) where
  seq := Nat.succ_le_succ h.seq
  lamport := by
    have := h.lamport
    have := henv.lamport
    rw [Stamps.receive_lamport, Lamport.update_val]
    omega
  clock := by
    intro k
    rw [Stamps.receive_get]
    have := h.clock k
    have := h.clock id
    have := henv.vclock k
    have := henv.vclock id
    split <;> omega

/-- The envelope of `send_external`. -/
theorem worldEnvelope_within (sys : Topology ι τ α σ) (m : Nat) (addr : ι) (msg : α) :
    EnvelopeWithin 1 (worldEnvelope sys m addr msg) where
  lamport := Nat.le_refl _
  vclock := by
    intro k
    show (VectorClock.new.increment "world").get k ≤ 1
    rw [VectorClock.get_increment, VectorClock.get_new, VectorClock.get_new]
    split <;> omega

/-! ## The invariant -/

/-- The counters of an event are at most its position in the log, those of the stamps and of the
envelopes under way at most its length. -/
structure Bounded (s : Config ι τ α σ) : Prop where
  log : ∀ k e, s.events[k]? = some e → EventWithin (k + 1) e
  stamps : ∀ i, StampsWithin s.events.length (s.stamps i)
  envelopes : Carries (fun _ => EnvelopeWithin s.events.length) (fun _ => EnvelopeWithin 1) s

theorem Bounded.init (sys : Topology ι τ α σ) : Bounded (Config.init sys) where
  log := fun k e he => by simp [Config.init] at he
  stamps := fun _ => .zero
  envelopes := Carries.init sys

variable [DecidableEq ι] [DecidableEq τ] {sys : Topology ι τ α σ} {s s' : Config ι τ α σ}

omit [DecidableEq ι] [DecidableEq τ] in
/-- One more event. -/
theorem Bounded.log_snoc (h : Bounded s) {e : CausalEvent} (hev : s'.events = s.events ++ [e])
    (he : EventWithin (s.events.length + 1) e) :
    ∀ k f, s'.events[k]? = some f → EventWithin (k + 1) f := by
  intro k f hf
  rw [hev] at hf
  rcases Nat.lt_or_ge k s.events.length with hk | hk
  · rw [List.getElem?_append_left hk] at hf
    exact h.log k f hf
  · rw [List.getElem?_append_right hk] at hf
    rw [List.getElem?_singleton, Option.ite_none_right_eq_some] at hf
    obtain ⟨h0, hf⟩ := hf
    obtain rfl := Option.some.inj hf
    obtain rfl : k = s.events.length := by omega
    exact he

omit [DecidableEq τ] in
/-- One more event of one actor, with the stamps it advances. -/
theorem Bounded.act (h : Bounded s) {i : ι} {e : CausalEvent} {c : Stamps} {t : Task ι τ α σ}
    (hev : s'.events = s.events ++ [e]) (htasks : s'.tasks = Function.update s.tasks i t)
    (ht : t.stamps = c) (hc : StampsWithin (s.events.length + 1) c)
    (he : EventWithin (s.events.length + 1) e) :
    (∀ k f, s'.events[k]? = some f → EventWithin (k + 1) f) ∧
      ∀ j, StampsWithin s'.events.length (s'.stamps j) := by
  refine ⟨h.log_snoc hev he, fun j => ?_⟩
  rw [stamps_task htasks ht, hev, List.length_append, List.length_singleton]
  by_cases hij : j = i
  · subst hij; rw [Function.update_self]; exact hc
  · rw [Function.update_of_ne hij]; exact (h.stamps j).mono (Nat.le_succ _)

theorem Bounded.records (h : Bounded s) (hr : Records sys s s') :
    (∀ k f, s'.events[k]? = some f → EventWithin (k + 1) f) ∧
      ∀ j, StampsWithin s'.events.length (s'.stamps j) := by
  cases hr with
  | nothing hev hst => rw [hev, hst]; exact ⟨h.log, h.stamps⟩
  | compute i phase rest c hpc hc hev htasks =>
    have hw : StampsWithin (s.events.length + 1) c := hc ▸ (h.stamps i).bump _
    exact h.act hev htasks rfl hw ⟨hw.seq, hw.lamport, hw.clock⟩
  | emit i phase rest addr msg m c env hpc hc henv hev htasks =>
    have hw : StampsWithin (s.events.length + 1) c := hc ▸ (h.stamps i).bump _
    subst henv
    exact h.act hev htasks rfl hw ⟨hw.seq, hw.lamport, hw.clock⟩
  | recv i c env hpc hc hev htasks =>
    have henv : EnvelopeWithin s.events.length env := by
      have := h.envelopes.tasks i
      rwa [hpc] at this
    have hw : StampsWithin (s.events.length + 1) c := hc ▸ (h.stamps i).receive _ henv
    exact h.act hev htasks rfl hw ⟨hw.seq, hw.lamport, hw.clock⟩
  | world x hx hstage hev htasks =>
    have henv : EnvelopeWithin 1 x.env := by
      have := h.envelopes.external x hx
      rwa [if_pos hstage] at this
    have hn : 1 ≤ s.events.length + 1 := by omega
    have hst : s'.stamps = s.stamps := by funext i; rw [Config.stamps, htasks]; rfl
    refine ⟨h.log_snoc hev ⟨hn, henv.lamport.trans hn, fun k => (henv.vclock k).trans hn⟩, ?_⟩
    rw [hst, hev, List.length_append]
    exact fun j => (h.stamps j).mono (Nat.le_add_right _ _)

theorem Bounded.step {l : Label ι α} (h : Bounded s) (hs : Step sys s l s') : Bounded s' := by
  obtain ⟨hlog, hstamps⟩ := h.records hs.records
  have hgrow : s.events.length ≤ s'.events.length := hs.records.grows.length_le
  have henv : Carries (fun _ => EnvelopeWithin s'.events.length) (fun _ => EnvelopeWithin 1) s :=
    h.envelopes.mono (fun _ _ h => h.mono hgrow) fun _ _ h => h
  refine ⟨hlog, hstamps, henv.step hs ?_ ?_ ?_⟩
  · rintro i phase rest addr msg m env - - rfl hev
    have hw := (h.stamps i).bump (sys.name i)
    rw [hev, List.length_append, List.length_singleton]
    exact ⟨hw.lamport, hw.clock⟩
  · exact fun addr msg _ => worldEnvelope_within sys _ addr msg
  · intro x _ _ hev hx
    rw [hev, List.length_append, List.length_singleton]
    exact hx.mono (Nat.le_add_left _ _)

theorem EventWithin.encodable {n : Nat} {e : CausalEvent} (h : EventWithin n e) (hn : n < 2 ^ 64)
    (hvalue : e.value = none) : e.Encodable where
  seq := h.seq.trans_lt hn
  lamport := h.lamport.trans_lt hn
  vclock := by
    intro p hp
    have hget : e.vclock.components p.1 = p.2 := by
      rw [StringMap.components, Std.ExtTreeMap.getD_eq_getD_getElem?,
        Std.ExtTreeMap.mem_toList_iff_getElem?_eq_some.mp hp, Option.getD_some]
    exact hget ▸ (h.vclock p.1).trans_lt hn
  value := fun x hx => by rw [hvalue] at hx; cases hx

/-- An event as the recorder writes it: its id is its coordinate, it has no `value`, and it is an
actor's or one of `world`. -/
structure Entry (sys : Topology ι τ α σ) (e : CausalEvent) : Prop where
  id : e.id = idOf e.actor e.seq
  value : e.value = none
  actor : e.actor = "world" ∨ ∃ i, e.actor = sys.name i

theorem Records.entry (hr : Records sys s s') (h : ∀ e ∈ s.events, Entry sys e) :
    ∀ e ∈ s'.events, Entry sys e := by
  have hsnoc : ∀ {e}, Entry sys e → ∀ e' ∈ s.events ++ [e], Entry sys e' := fun he =>
    List.forall_mem_append.mpr ⟨h, List.forall_mem_singleton.mpr he⟩
  cases hr with
  | nothing hev => rw [hev]; exact h
  | compute i _ _ _ _ _ hev => rw [hev]; exact hsnoc ⟨rfl, rfl, .inr ⟨i, rfl⟩⟩
  | emit i _ _ _ _ _ _ _ _ _ _ hev => rw [hev]; exact hsnoc ⟨rfl, rfl, .inr ⟨i, rfl⟩⟩
  | recv i _ _ _ _ hev => rw [hev]; exact hsnoc ⟨rfl, rfl, .inr ⟨i, rfl⟩⟩
  | world _ _ _ hev => rw [hev]; exact hsnoc ⟨rfl, rfl, .inl rfl⟩

theorem idOf_ne_empty (actor : ActorId) (seq : Nat) : idOf actor seq ≠ "" := by
  intro h
  have := congrArg (fun s => s.toList.length) h
  simp [idOf] at this

section Runs

variable [Fintype ι]

theorem Run.bounded {ls : List (Label ι α)} (h : Run sys ls s) :
    Bounded s ∧ ∀ e ∈ s.events, Entry sys e := by
  refine Transition.Run.induct (P := fun s => Bounded s ∧ ∀ e ∈ s.events, Entry sys e) ?_ h
    ⟨.init sys, fun e he => by cases he⟩
  intro s l s' hstep hb
  have hs := step_cases sys hstep
  exact ⟨hb.1.step hs, hs.records.entry hb.2⟩

/-- A log of fewer than 2^64 events can be written. -/
theorem Run.encodable {ls : List (Label ι α)} (h : Run sys ls s)
    (hlen : s.events.length < 2 ^ 64) : ∀ e ∈ s.events, e.Encodable := by
  intro e he
  obtain ⟨hb, hentry⟩ := h.bounded
  obtain ⟨k, hk, hke⟩ := List.getElem_of_mem he
  refine (hb.log k e ?_).encodable (by omega) (hentry e he).value
  rw [List.getElem?_eq_getElem hk, hke]

/-- **No counter outruns the log.**  In every run the seq, the lamport and every clock component of
the event at position `k` are at most `k + 1`, so while a log has fewer than 2^64 events none of its
`u64` counters has overflowed. -/
theorem counters_bounded {ls : List (Label ι α)} (h : Run sys ls s) :
    (∀ k e, s.events[k]? = some e → EventWithin (k + 1) e) ∧
      (s.events.length < 2 ^ 64 → ∀ e ∈ s.events, e.Encodable) :=
  ⟨h.bounded.1.log, h.encodable⟩

theorem counters_bounded_lone : ∃ s, Run lone dyingRun s ∧ s.events.length = 2 ∧
    (∀ k e, s.events[k]? = some e → EventWithin (k + 1) e) ∧ ∀ e ∈ s.events, e.Encodable := by
  obtain ⟨s, hrun, hlen⟩ : ∃ s, Run lone dyingRun s ∧ s.events.length = 2 := ⟨_, rfl, rfl⟩
  obtain ⟨hlog, hencodable⟩ := counters_bounded hrun
  exact ⟨s, hrun, hlen, hlog, hencodable (by omega)⟩

theorem Run.conforms_iff {ls : List (Label ι α)} (h : Run sys ls s) :
    ∀ e ∈ s.events, eventSchema e.toJson = true ↔ e.actor ≠ "" := by
  intro e he
  obtain ⟨hid, hvalue, -⟩ := h.bounded.2 e he
  rw [CausalEvent.conforms_iff fun x hx => (by rw [hvalue] at hx; cases hx), hid]
  exact and_iff_right (idOf_ne_empty e.actor e.seq)

theorem Run.conforms {ls : List (Label ι α)} (h : Run sys ls s) (hnames : ∀ i, sys.name i ≠ "") :
    ∀ e ∈ s.events, eventSchema e.toJson = true := by
  intro e he
  refine (h.conforms_iff e he).mpr ?_
  rcases (h.bounded.2 e he).actor with hworld | ⟨i, hi⟩
  · rw [hworld]
    decide
  · exact hi ▸ hnames i

/-- **The log keeps to its schema.**  In every run an event, encoded, is valid against
`event.schema.json` exactly if its actor has a name that is not empty; so if no actor is spawned
with the empty name, the whole log is valid. -/
theorem log_conforms {ls : List (Label ι α)} (h : Run sys ls s) :
    (∀ e ∈ s.events, eventSchema e.toJson = true ↔ e.actor ≠ "") ∧
      ((∀ i, sys.name i ≠ "") → ∀ e ∈ s.events, eventSchema e.toJson = true) :=
  ⟨h.conforms_iff, h.conforms⟩

/-- The same actor, spawned under the empty name. -/
def nameless : Topology Unit Unit Nat Unit := { lone with name := fun _ => "" }

theorem log_conforms_lone :
    (∃ s, Run lone dyingRun s ∧ s.events.length = 2 ∧
      ∀ e ∈ s.events, eventSchema e.toJson = true) ∧
      ∃ s, Run nameless dyingRun s ∧ ∃ e ∈ s.events, eventSchema e.toJson = false := by
  constructor
  · obtain ⟨s, hrun, hlen⟩ : ∃ s, Run lone dyingRun s ∧ s.events.length = 2 := ⟨_, rfl, rfl⟩
    exact ⟨s, hrun, hlen, (log_conforms hrun).2 (by decide)⟩
  · obtain ⟨s, e, hrun, he, hactor⟩ : ∃ s e, Run nameless dyingRun s ∧ e ∈ s.events ∧
        e.actor = "" := ⟨_, _, rfl, List.mem_cons_of_mem _ (List.mem_cons_self ..), rfl⟩
    have hiff := (log_conforms hrun).1 e he
    exact ⟨s, hrun, e, he, by simpa [hactor] using hiff⟩

end Runs

end Lichtung.Prod
