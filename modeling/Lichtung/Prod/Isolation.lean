import Lichtung.Prod.Reproduction
import Lichtung.Replay.Containment

/-!
# Drift does not reach unrelated events

The log of a production run, replayed where the actors of a set `D` are missing or have other
handlers.  The replay with the recorded actors is the reference; the events with no event of `D` in
their causal past are the spared ones.

Principal result: `drift_contained`.
-/

namespace Lichtung

/-- With plain msg_ids a recv is paired with the emit of its msg_id only. -/
theorem Paired.messageOrder {a b : CausalEvent} (h : Paired a b) (ha : a.op = .emit → a.PlainMid) :
    MessageOrder a b := by
  obtain ⟨w, hsent, hwanted⟩ := h
  obtain ⟨hop, hmid⟩ := CausalEvent.sent_eq_some.mp hsent
  obtain ⟨hop', hget⟩ := CausalEvent.wanted_eq_some.mp hwanted
  refine ⟨hop, hop', w, hmid, ?_⟩
  cases hb : b.msgId with
  | none =>
    obtain ⟨n, hn⟩ := ha hop w hmid
    have hempty : "m" ++ n.repr = "" := by
      rw [hb] at hget
      exact (Option.some.inj hn).trans hget.symm
    have := congrArg String.toList hempty
    simp at this
  | some v =>
    rw [hb] at hget
    exact congrArg some hget

namespace Prod

open Transition CausalHistory

variable {ι τ α σ : Type} {sys : Topology ι τ α σ} {s : Config ι τ α σ}
  {ls : List (Label ι α)} {log : List CausalEvent} {D : Set ActorId} {rs rs₀ : ReplaySystem τ α σ}

/-- The actors outside `D` are rebuilt as they ran; those of `D` may behave differently or be
missing. -/
structure RebuildsOff (sys : Topology ι τ α σ) (D : Set ActorId) (rs : ReplaySystem τ α σ) :
    Prop where
  actors : ∀ i, sys.name i ∉ D → rs.actors[sys.name i]? = some (sys.rebuilt i)
  names : ∀ a ∈ rs.actors, a ∈ D ∨ ∃ i, a = sys.name i

/-- Outside `D` both systems are the same. -/
theorem RebuildsOff.agree (h : RebuildsOff sys D rs) (h₀ : Rebuilds sys rs₀) {a : ActorId}
    (ha : a ∉ D) : rs.actors[a]? = rs₀.actors[a]? := by
  by_cases hname : ∃ i, a = sys.name i
  · obtain ⟨i, rfl⟩ := hname
    rw [h.actors i ha, h₀.actors i]
  · have hnone : a ∉ rs.actors := fun hin => hname ((h.names a hin).resolve_left ha)
    have hnone₀ : a ∉ rs₀.actors := fun hin => hname (h₀.names a hin)
    rw [Std.ExtTreeMap.getElem?_eq_none hnone, Std.ExtTreeMap.getElem?_eq_none hnone₀]

/-- No event of `D` is, or causally precedes, the event. -/
def Unreached (log : List CausalEvent) (D : Set ActorId) (e : CausalEvent) : Prop :=
  ∀ f ∈ log, f.actor ∈ D → ¬ (f = e ∨ CausallyBefore log f e)

theorem Unreached.spared (h : RebuildsOff sys D rs) (h₀ : Rebuilds sys rs₀)
    (hplain : ∀ e ∈ log, e.op = .emit ∨ e.op = .recv → e.PlainMid) :
    Spared rs₀ rs log (Unreached log D) where
  agree e he hclean := h.agree h₀ fun hD => hclean e he hD (.inl rfl)
  causes e he hclean f hf hfe g hg hD hgf := by
    have hstep : f ∈ log ∧ e ∈ log ∧ (ProgramOrder f e ∨ MessageOrder f e) :=
      ⟨hf, he, hfe.imp_right fun hp => hp.messageOrder fun hop => hplain f hf (.inl hop)⟩
    refine hclean g hg hD (.inr ?_)
    rcases hgf with rfl | hbefore
    · exact .single hstep
    · exact hbefore.tail hstep

variable [Fintype ι]

/-- A recorded msg_id was issued. -/
theorem Account.le_of_recv (h : Account sys s) {r : CausalEvent} (hr : r ∈ s.events)
    (hop : r.op = .recv) {m : Nat} (hm : r.parsedMid = some m) : m ≤ s.msgId := by
  obtain ⟨e, he, heop, hkey⟩ := h.emit_of_recv hr hop
  have hmid := (h.plain hr (.inr hop)).mid_parsed hm
  exact h.issued.le_of_emit he heop ((Prod.mk.inj hkey).1.trans hmid)

variable [DecidableEq ι] [DecidableEq τ]

/-- **Drift stays in its causal future.**  Replay the log of a run, in any order, where only the
actors of `D` behave differently or are missing, with the same origin, and msg_ids below the
sentinels of extra sends.  An event with no event of `D` in its causal past is produced again as
recorded, and an event that a divergence names is one of `D` or causally after one. -/
theorem drift_contained (hn : Named sys) (h : Run sys ls s) (h1 : ls.countP Label.injects ≤ 1)
    (hidle : ∀ i, (s.tasks i).pc.idle) (hm : s.msgId < 2 ^ 64) (hp : log.Perm s.events)
    (hworld : "world" ∉ D) (hr : RebuildsOff sys D rs)
    (ho : rs.origins = ls.filterMap (Label.origin sys)) {r : Replayed} {d : Driver τ α σ}
    (hd : rs.replayRun log = .ok (r, d))
    (hlow : ∀ a ∈ rs.actors, ∀ j < d.state.sendCount a, OverSend (.build log) a j →
      s.msgId < (RecordedIndex.build log).sendMid a j) :
    (∀ e ∈ log, (∀ f ∈ log, f.actor ∈ D → ¬ (f = e ∨ CausallyBefore log f e)) →
      e ∈ d.state.journal.events ∨ e ∈ d.state.journal.seeded.map Prod.fst) ∧
    ∀ x ∈ d.state.divergences, ∀ e ∈ log, x.eventId = e.id →
      ∃ f ∈ log, f.actor ∈ D ∧ (f = e ∨ CausallyBefore log f e) := by
  have ha := h.account hn
  obtain ⟨hlog, hd⟩ := replayRun_ok.mp hd
  have horder := timeline_extends hlog
  have hwf := (replayLog_ok_iff.mp ⟨r, hlog⟩).wellFormed
  have hids : ∀ e ∈ log, e.id = idOf e.actor e.seq := fun e he =>
    (ha.written e (hp.mem_iff.mp he)).id
  have hplain : ∀ e ∈ log, e.op = .emit ∨ e.op = .recv → e.PlainMid := fun e he =>
    ha.plain (hp.mem_iff.mp he)
  -- the reference: the recorded actors, with the same origin
  obtain ⟨rs₀, hrs₀, ho₀⟩ : ∃ rs₀ : ReplaySystem τ α σ, Rebuilds sys rs₀ ∧
      rs₀.origins = rs.origins := by
    have hall : Rebuilds sys (sys.respawn Finset.univ.toList) :=
      rebuilds_of_respawn hn fun i => Finset.mem_toList.mpr (Finset.mem_univ i)
    exact ⟨⟨_, rs.origins⟩, ⟨hall.actors, hall.names⟩, rfl⟩
  have hworld₀ : "world" ∉ rs₀.actors := fun hin => by
    obtain ⟨i, hi⟩ := hrs₀.names _ hin
    exact hn.not_world i hi.symm
  have hworld' : "world" ∉ rs.actors := fun hin => by
    obtain ⟨i, hi⟩ := (hr.names _ hin).resolve_left hworld
    exact hn.not_world i hi.symm
  obtain ⟨r₀, d₀, hd₀, hsilent⟩ := h.replayed hn h1 hidle hm hp hrs₀ (ho₀.trans ho)
  obtain ⟨hlog₀, hd₀⟩ := replayRun_ok.mp hd₀
  obtain ⟨seeds, href⟩ := Reference.of_reexecute hwf hids hplain hworld₀
    (timeline_extends hlog₀) hd₀ hsilent
  have hsp := Unreached.spared hr hrs₀ hplain
  obtain ⟨d', hf, hw, rfl⟩ := href.contains hsp hworld' ho₀.symm horder hd fun a hin =>
    .inr fun j hj hover q hq hqop m hqm =>
      (ha.le_of_recv (hp.mem_iff.mp hq) hqop hqm).trans_lt (hlow a hin j hj hover)
  refine ⟨fun e he hclean => ?_, fun x hx e he hxe => ?_⟩
  · obtain ⟨ds, hds, -⟩ := complete_eq log d'.state
    rw [hds]
    exact hf.spared_made href hsp hw horder he hclean
  · by_contra hnone
    push Not at hnone
    refine hf.spared_unnamed href hsp hworld' hw horder he (fun f hflog hD hfe => ?_) x hx hxe
    exact hfe.elim (hnone f hflog hD).1 (hnone f hflog hD).2

/-! ## A missing sink -/

/-- The log of the delivery. -/
def deliveredLog : List CausalEvent :=
  let origin : Envelope Unit Nat := worldEnvelope couriers 1 true 7
  let r₁ := Stamps.zero.receive "courier" origin
  let r₂ := r₁.bump "courier"
  let passed := r₂.envelope "courier" 2 (couriers.addr false) 7
  let s₁ := Stamps.zero.receive "sink" passed
  [emitEvent "world" 1 origin, recvEvent "courier" r₁.seq r₁.clock r₁.lamport.val origin,
    emitEvent "courier" r₂.seq passed, recvEvent "sink" s₁.seq s₁.clock s₁.lamport.val passed]

/-- Only the courier is rebuilt. -/
def sinkless : ReplaySystem Unit Nat Unit :=
  (ReplaySystem.new.spawn "courier" (couriers.rebuilt true)).origin (couriers.addr true) 7

theorem sinkless_keys : ∀ a ∈ sinkless.actors, a = "courier" := by
  intro a ha
  have ha : a ∈ (∅ : Std.ExtTreeMap ActorId (TypedActor Unit Nat Unit)).insert "courier"
    (couriers.rebuilt true) := ha
  rw [Std.ExtTreeMap.mem_insert, Std.LawfulEqCmp.compare_eq_iff_eq] at ha
  exact (ha.resolve_right (by simp)).symm

theorem sinkless_rebuilds : RebuildsOff couriers {"sink"} sinkless where
  actors i hi := by
    cases i with
    | true => exact Std.ExtTreeMap.getElem?_insert_self
    | false => exact absurd rfl hi
  names a ha := .inr ⟨true, sinkless_keys a ha⟩

/-- Without the sink its recv is reported, and it is an event of the sink. -/
theorem drift_contained_sinkless : ∃ s r d, Run couriers deliveredRun s ∧
    s.events = deliveredLog ∧ sinkless.replayRun s.events = .ok (r, d) ∧
    d.state.divergences.map Divergence.eventId = ["sink:1"] ∧
    ∃ f ∈ s.events, f.actor = "sink" ∧
      (f = deliveredLog[3] ∨ CausallyBefore s.events f deliveredLog[3]) := by
  obtain ⟨s, hrun, hev, hidle, hm⟩ : ∃ s, Run couriers deliveredRun s ∧ s.events = deliveredLog ∧
      (∀ i, (s.tasks i).pc.idle) ∧ s.msgId = 2 := by
    refine ⟨_, rfl, rfl, fun i => ?_, rfl⟩
    cases i <;> trivial
  have hwalk : (sinkless.replayRun deliveredLog).toOption.map (fun p =>
      (p.2.state.divergences.map Divergence.eventId, p.2.state.sendCount "courier")) =
        some (["sink:1"], 1) := by decide
  have hemit : ((RecordedIndex.build deliveredLog).emitsByActor "courier")[0]?.bind
      CausalEvent.parsedMid = some 2 := by decide
  cases hd : sinkless.replayRun deliveredLog with
  | error e => rw [hd] at hwalk; cases hwalk
  | ok p =>
    rw [hd] at hwalk
    obtain ⟨hids, hsends⟩ := Prod.mk.inj (Option.some.inj hwalk)
    rw [← hev] at hd hemit
    obtain ⟨-, hcaused⟩ := drift_contained couriers_named hrun (by decide) hidle (by omega)
      (.refl _) (D := {"sink"}) (by decide) sinkless_rebuilds rfl hd fun a ha j hj hover => by
        rw [sinkless_keys a ha] at hj hover
        obtain rfl : j = 0 := by omega
        rw [OverSend, hemit] at hover
        cases hover
    obtain ⟨x, hx, hxid⟩ := List.mem_map.mp (hids ▸ List.mem_singleton_self _ :
      "sink:1" ∈ p.2.state.divergences.map Divergence.eventId)
    obtain ⟨f, hf, hactor, hfe⟩ := hcaused x hx deliveredLog[3] (by rw [hev]; decide)
      (hxid.trans (by decide))
    exact ⟨s, p.1, p.2, hrun, hev, hd, hids, f, hf, hactor, hfe⟩

end Prod

end Lichtung
