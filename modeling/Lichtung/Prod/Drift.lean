import Lichtung.Prod.Replay
import Lichtung.Replay.Delivery

/-!
# Drifted handlers

Replaying a production log with other handlers.  A re-sent message waits under the msg_id recorded
for the sender's next emit, and goes to the actor that received that msg_id in the recording, while
its payload has the message type of the actor it was addressed to.  A drifted send that takes the
msg_id of a recorded send to an actor of another type is handed a payload its receiver cannot
downcast, and `handle_any` panics.

Principal results: `Staffed.next_error` (nothing else makes a replay panic) and
`drift_reported_iff` (when a replay with drifted handlers returns).
-/

namespace Lichtung

variable {ι τ α σ ρ : Type}

namespace Prod

/-- The same actors by name and message type, with handlers of their own. -/
structure Reshapes (sys : Topology ι τ α σ) (sys' : Topology ι τ α ρ) : Prop where
  name : ∀ i, sys'.name i = sys.name i
  msgType : ∀ i, (sys'.actor i).msgType = (sys.actor i).msgType

/-- Every origin re-supplied goes to the actor that the `world` emit at its position went to. -/
def Resupplies (sys : Topology ι τ α σ) (log : List CausalEvent)
    (origins : List (ActorId × Boxed τ α)) : Prop :=
  ∀ (k : Nat) (we : CausalEvent) (o : ActorId × Boxed τ α),
    ((RecordedIndex.build log).emitsByActor "world")[k]? = some we → origins[k]? = some o →
      we.dst = some o.1 ∧ ∃ i, o.1 = sys.name i ∧ o.2.typeId = (sys.actor i).msgType

/-! ## Drivers of other handlers -/

/-- The actors of a driver are those of the topology, in any state. -/
structure Crew (sys : Topology ι τ α σ) (d : Driver τ α σ) : Prop where
  actors : ∀ i, ∃ state, d.actors[sys.name i]? = some ⟨(sys.actor i).mapAddr sys.addr, state⟩
  names : ∀ a ∈ d.actors, ∃ i, a = sys.name i

/-- Calls whose sends go to the actors of the topology. -/
def Calling (sys : Topology ι τ α σ) (actions : List (Action (Addr τ) α)) : Prop :=
  ∀ addr msg, .send addr msg ∈ actions → ∃ i, addr = sys.addr i

section Driving

variable [DecidableEq τ] {sys : Topology ι τ α σ} {d : Driver τ α σ} {a : ActorId}
  {msg : Option (Boxed τ α)} {p : Driver τ α σ × List (Action (Addr τ) α)} {e : Abort}

/-- The sends of a rebuilt actor. -/
theorem calling_of_invoke {i : ι} {state st : σ} {actions : List (Action (Addr τ) α)}
    (h : Driver.invoke ⟨(sys.actor i).mapAddr sys.addr, state⟩ msg = some (st, actions)) :
    Calling sys actions := by
  obtain ⟨calls, rfl⟩ : ∃ calls : List (Action ι α), actions = calls.map (·.mapAddr sys.addr) := by
    cases msg with
    | none => cases h; exact ⟨_, rfl⟩
    | some msg =>
      simp only [Driver.invoke] at h
      split at h
      · cases h; exact ⟨_, rfl⟩
      · cases h
  intro addr msg hmem
  obtain ⟨b, -, hb⟩ := List.mem_map.mp hmem
  cases b with
  | compute => cases hb
  | send j msg' => cases hb; exact ⟨j, rfl⟩

theorem Crew.call (h : Crew sys d) (hn : Named sys) (hcall : d.call a msg = .ok p) :
    Crew sys p.1 ∧ Calling sys p.2 := by
  have hmem := (Machine.call_ok hcall).2.2
  unfold Driver.call at hcall
  split at hcall
  · cases hcall
  · rename_i t ht
    split at hcall
    · cases hcall
    · rename_i st actions hinv
      cases hcall
      obtain ⟨i, rfl⟩ := h.names a (getElem_of_getElem? ht).1
      obtain ⟨state, hi⟩ := h.actors i
      cases hi.symm.trans ht
      refine ⟨⟨fun j => ?_, fun b hb => h.names b ((hmem b).mp hb)⟩, calling_of_invoke hinv⟩
      by_cases hij : i = j
      · subst hij
        exact ⟨st, by simp⟩
      · have hne : ¬ sys.name i = sys.name j := hn.injective.ne hij
        simpa [Std.ExtTreeMap.getElem?_insert, hne] using h.actors j

/-- Only a payload of the wrong type stops an actor. -/
theorem Crew.call_error (h : Crew sys d) (ha : a ∈ d.actors) (hcall : d.call a msg = .error e) :
    ∃ i b, a = sys.name i ∧ msg = some b ∧ b.typeId ≠ (sys.actor i).msgType := by
  obtain ⟨i, rfl⟩ := h.names a ha
  obtain ⟨state, hi⟩ := h.actors i
  simp only [Driver.call, hi] at hcall
  cases msg with
  | none => simp only [Driver.invoke] at hcall; cases hcall
  | some b =>
    refine ⟨i, b, rfl, rfl, fun htype => ?_⟩
    have hb : b.typeId = (Actor.mapAddr sys.addr (sys.actor i)).msgType := htype
    simp only [Driver.invoke, if_pos hb] at hcall
    cases hcall

variable [Counter] {ev : CausalEvent}

theorem Crew.recv (h : Crew sys d) (hn : Named sys) (hrecv : d.recv ev = .ok p) :
    Crew sys p.1 ∧ Calling sys p.2 := by
  have hidle : Calling sys ([] : List (Action (Addr τ) α)) := fun _ _ hmem => by cases hmem
  unfold Driver.recv at hrecv
  split at hrecv
  · cases hrecv
    exact ⟨h, hidle⟩
  · split at hrecv
    · cases hrecv
      exact ⟨⟨h.actors, h.names⟩, hidle⟩
    · split at hrecv
      · cases hrecv
        exact ⟨⟨h.actors, h.names⟩, hidle⟩
      · dsimp only at hrecv
        split at hrecv
        · cases hrecv
          exact ⟨⟨h.actors, h.names⟩, hidle⟩
        · refine Crew.call ⟨?_, ?_⟩ hn hrecv
          · exact h.actors
          · exact h.names

theorem Crew.recv_error (h : Crew sys d) (hrecv : d.recv ev = .error e) :
    ∃ n env i, ev.op = .recv ∧ ev.parsedMid = some n ∧ d.state.pending n = some env ∧
      ev.actor = sys.name i ∧ env.msg.typeId ≠ (sys.actor i).msgType := by
  unfold Driver.recv at hrecv
  split at hrecv
  · cases hrecv
  · rename_i hop
    split at hrecv
    · cases hrecv
    · rename_i n hmid
      split at hrecv
      · cases hrecv
      · rename_i env henv
        dsimp only at hrecv
        split at hrecv
        · cases hrecv
        · rename_i hactor
          have hcrew : Crew sys
              ({ d with state := d.state.consume ev n env }.stampRecv ev.actor env) :=
            ⟨h.actors, h.names⟩
          obtain ⟨i, b, hi, hb, htype⟩ := hcrew.call_error (not_not.mp hactor) hrecv
          cases hb
          exact ⟨n, env, i, not_not.mp hop, hmid, henv, hi, htype⟩

end Driving

/-! ## Replays of other handlers -/

/-- A replay of the actors of the topology, with any handlers. -/
structure Staffed (sys : Topology ι τ α σ) (m : Machine τ α σ) : Prop where
  crew : Crew sys m.driver
  names : ∀ a ∈ m.names, a ∈ m.driver.actors
  calls : Calling sys m.actions

section Replays

variable [Counter] [DecidableEq τ] {sys : Topology ι τ α σ} {rs : ReplaySystem τ α σ}
  {log timeline : List CausalEvent} {m m' : Machine τ α σ}

theorem Staffed.step (hn : Named sys) (h : Staffed sys m)
    (hnext : m.next rs.origins = some (.ok m')) : Staffed sys m' := by
  cases Machine.next_step hnext with
  | seed he => exact ⟨⟨h.crew.actors, h.crew.names⟩, h.names, h.calls⟩
  | @act a as he ha =>
    refine ⟨⟨h.crew.actors, h.crew.names⟩, h.names, fun addr msg hmem => h.calls addr msg ?_⟩
    rw [ha]
    exact List.mem_cons_of_mem _ hmem
  | start he ha hnames hcall =>
    obtain ⟨hcrew, hcalls⟩ := h.crew.call hn hcall
    refine ⟨hcrew, fun a hmem => ((Machine.call_ok hcall).2.2 a).mpr (h.names a ?_), hcalls⟩
    rw [hnames]
    exact List.mem_cons_of_mem _ hmem
  | serve he ha hnames ht hrecv =>
    obtain ⟨hcrew, hcalls⟩ := h.crew.recv hn hrecv
    refine ⟨hcrew, fun a hmem => ?_, hcalls⟩
    have hmem : a ∈ m.names := hmem
    rw [hnames] at hmem
    cases hmem

theorem Staffed.reached (hn : Named sys) (hr : Rebuilds sys rs)
    (hm : Machine.Reached rs log timeline m) : Staffed sys m := by
  induction hm with
  | entry =>
    exact ⟨⟨fun i => ⟨sys.init i, hr.actors i⟩, hr.names⟩,
      fun a ha => Std.ExtTreeMap.mem_keys.mp ha, fun _ _ hmem => by cases hmem⟩
  | step _ hnext ih => exact ih.step hn hnext

omit [Counter] [DecidableEq τ] in
/-- A rebuilt actor sends to actors of the topology. -/
theorem Staffed.draws (h : Staffed sys m) {n : Nat} {addr : Addr τ} (hdraws : m.Draws n addr) :
    ∃ i, addr = sys.addr i := by
  obtain ⟨msg, as, hactions⟩ := hdraws.call
  exact h.calls addr msg (by rw [hactions]; exact List.mem_cons_self ..)

/-- **Only a message of the wrong type makes a replay panic.** -/
theorem Staffed.next_error (h : Staffed sys m) {e : Abort}
    (hnext : m.next rs.origins = some (.error e)) :
    ∃ ev env i, m.Serves ev env ∧ ev.actor = sys.name i ∧
      env.msg.typeId ≠ (sys.actor i).msgType := by
  obtain ⟨d, k, emits, current, actions, names, timeline⟩ := m
  rcases emits with _ | ⟨we, wes⟩
  · rcases actions with _ | ⟨a, as⟩
    · rcases names with _ | ⟨name, names⟩
      · rcases timeline with _ | ⟨ev, evs⟩
        · cases hnext
        · have hrecv := Except.map_eq_error.mp (Option.some.inj hnext)
          obtain ⟨n, env, i, hop, hmid, henv, hi, htype⟩ := h.crew.recv_error hrecv
          exact ⟨ev, env, i, ⟨rfl, rfl, rfl, rfl, hop, n, hmid, henv⟩, hi, htype⟩
      · have hcall := Except.map_eq_error.mp (Option.some.inj hnext)
        obtain ⟨_, b, -, hb, -⟩ := h.crew.call_error (h.names name (List.mem_cons_self ..)) hcall
        cases hb
    · cases hnext
  · cases hnext

end Replays

/-! ## When drift is reported -/

section Reporting

variable [Counter] [DecidableEq τ]

/-- The replay of `log` returns, and every envelope it hands to an actor holds a message of that
actor's type. -/
structure Reports (sys : Topology ι τ α σ) (rs : ReplaySystem τ α ρ) (log : List CausalEvent) :
    Prop where
  returns : ∃ out, rs.replay log = .ok out
  typed : ∀ r m, replayLog log = .ok r → Machine.Reached rs log r.timeline m →
    ∀ ev env i, m.Serves ev env → ev.actor = sys.name i →
      env.msg.typeId = (sys.actor i).msgType

/-- Every send that draws the msg_id of a recv still to come, and is the last to do so before that
recv, goes to an actor of the receiver's message type. -/
def Aligned (sys : Topology ι τ α σ) (rs : ReplaySystem τ α ρ) (log : List CausalEvent) : Prop :=
  ∀ r m, replayLog log = .ok r → Machine.Reached rs log r.timeline m →
    ∀ n addr ev i j, m.Draws n addr → m.Awaits n ev → ¬ m.Redrawn rs.origins n ev →
      addr.id = sys.name i → ev.actor = sys.name j →
        (sys.actor i).msgType = (sys.actor j).msgType

/-- Every send that draws the msg_id of a recv still to come goes to the recipient of the recorded
emit at its position. -/
def KeepsRecipients (rs : ReplaySystem τ α ρ) (log : List CausalEvent) : Prop :=
  ∀ r m, replayLog log = .ok r → Machine.Reached rs log r.timeline m →
    ∀ n addr ev, m.Draws n addr → m.Awaits n ev →
      ∃ e, ((RecordedIndex.build log).emitsByActor m.current)[m.sendIndex]? = some e ∧
        e.parsedMid = some n ∧ e.dst = some addr.id

end Reporting

section Runs

variable {sys : Topology ι τ α σ} {sys' : Topology ι τ α ρ} {s : Config ι τ α σ}
  {log : List CausalEvent} {rs : ReplaySystem τ α ρ} {e ev : CausalEvent}

theorem Reshapes.named (h : Reshapes sys sys') (hn : Named sys) : Named sys' := by
  have hname : sys'.name = sys.name := funext h.name
  exact ⟨hname ▸ hn.injective, hname ▸ hn.not_world⟩

/-- A recv has the msg_id of the emit whose number it has. -/
theorem Account.message [Fintype ι] (ha : Account sys s) (he : e ∈ s.events) (hev : ev ∈ s.events)
    (hop : e.op = .emit) (hrecv : ev.op = .recv) {n : Nat} (hn : e.parsedMid = some n)
    (hn' : ev.parsedMid = some n) : MessageOrder e ev :=
  ⟨hop, hrecv, _, (ha.plain he (.inl hop)).mid_parsed hn,
    (ha.plain hev (.inr hrecv)).mid_parsed hn'⟩

/-- One recv of a number is recorded. -/
theorem Account.recv_unique [Fintype ι] (ha : Account sys s) {f : CausalEvent} (hf : f ∈ s.events)
    (hev : ev ∈ s.events) (hop : f.op = .recv) (hop' : ev.op = .recv) {n : Nat}
    (hn : f.parsedMid = some n) (hn' : ev.parsedMid = some n) : f = ev := by
  obtain ⟨lost, hl⟩ := ha.ledger
  refine List.inj_on_of_nodup_map (hl.recvs_nodup ha.issued)
    (List.mem_filter.mpr ⟨hf, by simpa using hop⟩)
    (List.mem_filter.mpr ⟨hev, by simpa using hop'⟩) ?_
  exact (((ha.plain hf (.inr hop)).mid_parsed hn).trans
    ((ha.plain hev (.inr hop')).mid_parsed hn').symm)

variable [Counter] [DecidableEq τ] [Fintype ι]

/-- What is put into `pending` fits the recvs still to come, where the sends are aligned. -/
theorem Aligned.fits (hal : Aligned sys rs log) (ha : Account sys s) (hp : log.Perm s.events)
    (hn : Named sys) (hsame : Reshapes sys sys') (hr : Rebuilds sys' rs)
    (ho : Resupplies sys log rs.origins) {r : Replayed} (hlog : replayLog log = .ok r)
    {m : Machine τ α ρ} (hm : Machine.Reached rs log r.timeline m) {env : Envelope τ α}
    (hins : m.insertion rs.origins = some env) (hev : m.Awaits env.msgId ev) :
    (∀ j, ev.actor = sys.name j → env.msg.typeId = (sys.actor j).msgType) ∨
      m.Redrawn rs.origins env.msgId ev := by
  have hlogged : ev ∈ s.events :=
    hp.mem_iff.mp ((timeline_spec hlog).1.mem_iff.mp (hm.suffix.subset hev.mem))
  rcases Machine.insertion_some hins with ⟨we, o, hwe, hmid, horigin, hmsg⟩ | ⟨addr, hdraws, htype⟩
  · -- an origin goes where it went
    have hwe := hm.next_emit hwe
    obtain ⟨hdst, i, hi, htype⟩ := ho _ we o hwe horigin
    obtain ⟨hmem, hop, -⟩ := RecordedIndex.mem_build_emits.mp (List.mem_of_getElem? hwe)
    have hmem := hp.mem_iff.mp hmem
    have hactor := Option.some.inj (hdst.symm.trans
      (ha.dst_of_message hmem hlogged (ha.message hmem hlogged hop hev.op hmid hev.key)))
    refine .inl fun j hj => ?_
    obtain rfl : i = j := hn.injective (hi.symm.trans (hactor.trans hj))
    rw [hmsg, htype]
  · by_cases hlast : m.Redrawn rs.origins env.msgId ev
    · exact .inr hlast
    · refine .inl fun j hj => ?_
      obtain ⟨i, rfl⟩ := (Staffed.reached (hsame.named hn) hr hm).draws hdraws
      rw [htype]
      exact (hsame.msgType i).trans
        (hal r m hlog hm _ _ ev i j hdraws hev hlast (hsame.name i) hj)

/-- Aligned sends are enough. -/
theorem Aligned.reports (hal : Aligned sys rs log) (ha : Account sys s) (hp : log.Perm s.events)
    (hn : Named sys) (hsame : Reshapes sys sys') (hr : Rebuilds sys' rs)
    (ho : Resupplies sys log rs.origins) (hw : log.countP (·.actor = "world") ≤ 1) :
    Reports sys rs log := by
  have hw' : recording.count s.events "world" ≤ 1 := (hp.countP_eq _).ge.trans hw
  have hacc := (ha.accepted hw').perm hp.symm
  have htyped : ∀ r m, replayLog log = .ok r → Machine.Reached rs log r.timeline m →
      ∀ ev env i, m.Serves ev env → ev.actor = sys.name i →
        env.msg.typeId = (sys.actor i).msgType := by
    intro r m hlog hm ev env i hs hi
    have hnd : r.timeline.Nodup := (timeline_extends hlog).nodup hacc.wellFormed
    exact hm.served hnd (fun m hm env hins ev hev =>
      hal.fits ha hp hn hsame hr ho hlog hm hins hev) hs i hi
  refine ⟨?_, htyped⟩
  obtain ⟨r, hlog⟩ := replayLog_ok_iff.mpr hacc
  refine (Machine.replay_returns_iff hlog).mpr fun m hm e herr => ?_
  obtain ⟨ev, env, i, hs, hi, hne⟩ := (Staffed.reached (hsame.named hn) hr hm).next_error herr
  refine hne ?_
  rw [hsame.msgType]
  exact htyped r m hlog hm ev env i hs (hi.trans (hsame.name i))

/-- A send that is not aligned is handed over. -/
theorem Reports.aligned (hrep : Reports sys rs log) (ha : Account sys s) (hp : log.Perm s.events)
    (hn : Named sys) (hsame : Reshapes sys sys') (hr : Rebuilds sys' rs) :
    Aligned sys rs log := by
  intro r m hlog hm n addr ev i j hdraws hev hlast hi hj
  obtain ⟨msg, as, hactions⟩ := hdraws.call
  obtain ⟨i', rfl⟩ := (Staffed.reached (hsame.named hn) hr hm).draws hdraws
  obtain rfl : i' = i := hn.injective ((hsame.name i').symm.trans hi)
  have hsafe := (Machine.replay_returns_iff hlog).mp hrep.returns
  obtain ⟨env, hins, hmid, htype⟩ := hdraws.insertion rs.origins
  have hmem : ∀ f, f ∈ m.timeline → f ∈ s.events := fun f hf =>
    hp.mem_iff.mp ((timeline_spec hlog).1.mem_iff.mp (hm.suffix.subset hf))
  cases hnext : m.next rs.origins with
  | none =>
    have hnil := (Machine.next_none hnext).2.1
    rw [hactions] at hnil
    cases hnil
  | some x =>
    cases x with
    | error e => exact absurd hnext (hsafe m hm e)
    | ok m₁ =>
      have htl : m₁.timeline = m.timeline := by
        rcases Machine.next_timeline hnext with heq | ⟨f, -, -, hnil, -⟩
        · exact heq
        · rw [hactions] at hnil
          cases hnil
      have he₁ : m₁.emits = [] := by
        rcases Machine.next_position hnext with ⟨we, hwe, -⟩ | ⟨-, he₁, -⟩
        · rw [hdraws.emits] at hwe
          cases hwe
        · exact he₁
      have hpending : m₁.driver.state.pending n = some env := by
        subst hmid
        cases Machine.next_stashes hnext with
        | keep hins' => cases hins.symm.trans hins'
        | seed he' => rw [hdraws.emits] at he'; cases he'
        | send he' hins' hmid hstashed hupdate hcount =>
          cases hins.symm.trans hins'
          rw [hupdate, Function.update_self]
      obtain ⟨m₂, hlater, hs⟩ := Machine.served_later he₁ hpending
        ⟨htl.symm ▸ hev.mem, hev.op, hev.key⟩
        (fun f hf => ha.recv_unique (hmem f (htl ▸ hf.mem)) (hmem ev hev.mem) hf.op hev.op hf.key
          hev.key)
        (fun hdrawn => hlast ⟨m₁, hnext, hdrawn⟩)
        (fun m₂ hlater => hsafe m₂ ((hm.step hnext).later hlater))
      calc (sys.actor i').msgType = (sys'.actor i').msgType := (hsame.msgType i').symm
        _ = env.msg.typeId := htype.symm
        _ = (sys.actor j).msgType :=
          hrep.typed r m₂ hlog ((hm.step hnext).later hlater) ev env j hs hj

/-- Where the sends keep the recorded recipients they are aligned. -/
theorem KeepsRecipients.aligned (hkeep : KeepsRecipients rs log) (ha : Account sys s)
    (hp : log.Perm s.events) (hn : Named sys) : Aligned sys rs log := by
  intro r m hlog hm n addr ev i j hdraws hev _ hi hj
  obtain ⟨e, he, hmid, hdst⟩ := hkeep r m hlog hm n addr ev hdraws hev
  obtain ⟨hmem, hop, -⟩ := RecordedIndex.mem_build_emits.mp (List.mem_of_getElem? he)
  have hmem := hp.mem_iff.mp hmem
  have hlogged : ev ∈ s.events :=
    hp.mem_iff.mp ((timeline_spec hlog).1.mem_iff.mp (hm.suffix.subset hev.mem))
  have hactor := ha.dst_of_message hmem hlogged (ha.message hmem hlogged hop hev.op hmid hev.key)
  obtain rfl : i = j :=
    hn.injective (hi.symm.trans ((Option.some.inj (hdst.symm.trans hactor)).trans hj))
  rfl

variable [DecidableEq ι] {ls : List (Label ι α)}

/-- **When drift is reported.**  Replay the log of a run, in any order, with actors of the same names
and message types and any handlers, the origins going where they went.  The replay returns, and
hands every actor messages of its type, if and only if at most one `world` emit is recorded and the
sends are aligned.  So it is where all actors have one message type, and where the sends keep the
recorded recipients. -/
theorem drift_reported_iff (hn : Named sys) (h : Run sys ls s) (hp : log.Perm s.events)
    (hsame : Reshapes sys sys') (hr : Rebuilds sys' rs) (ho : Resupplies sys log rs.origins) :
    (Reports sys rs log ↔ log.countP (·.actor = "world") ≤ 1 ∧ Aligned sys rs log) ∧
    (log.countP (·.actor = "world") ≤ 1 →
      (∀ i j, (sys.actor i).msgType = (sys.actor j).msgType) → Reports sys rs log) ∧
    (log.countP (·.actor = "world") ≤ 1 → KeepsRecipients rs log → Reports sys rs log) := by
  have ha := h.account hn
  have henough : log.countP (·.actor = "world") ≤ 1 → Aligned sys rs log → Reports sys rs log :=
    fun hw hal => hal.reports ha hp hn hsame hr ho hw
  refine ⟨⟨fun hrep => ⟨?_, hrep.aligned ha hp hn hsame hr⟩, fun hcond => henough hcond.1 hcond.2⟩,
    fun hw htypes => henough hw fun _ _ _ _ _ _ _ i j _ _ _ _ _ => htypes i j,
    fun hw hkeep => henough hw (hkeep.aligned ha hp hn)⟩
  obtain ⟨out, hout⟩ := hrep.returns
  obtain ⟨_, -, hlog, -⟩ := replay_ok hout
  have hcoords := ((replayLog_ok_iff.mp ⟨_, hlog⟩).perm hp).wellFormed.coords
  exact (hp.countP_eq _).le.trans (ha.coords_world hcoords)

end Runs

/-! ## Two sends swapped -/

/-- A source that passes every number on to two actors: `left` first, or `right` first.  Their
message types are different if they are `apart`. -/
def fork (apart first : Bool) : Topology (Option Bool) Bool Nat Unit where
  name
    | none => "source"
    | some right => if right then "right" else "left"
  actor
    | none => ⟨false, fun s => (s, []), fun s n => (s, [.send (some first) n, .send (some !first) n])⟩
    | some right => ⟨apart && right, fun s => (s, []), fun s _ => (s, [])⟩
  init _ := ()

/-- The actors start, and an origin is passed on to `left` and `right`, which receive it. -/
def forkRun : List (Label (Option Bool) Nat) :=
  [.task none, .task none, .task (some false), .task (some false), .task (some true),
    .task (some true), .sendExternal none 1, .external 0, .external 0, .external 0, .task none,
    .task none, .task none, .task none, .task none, .task none, .task none, .task none, .task none,
    .task none, .task none, .task (some false), .task (some false), .task (some true),
    .task (some true)]

/-- What the run records. -/
def forkLog : List CausalEvent :=
  let origin : Envelope Bool Nat := worldEnvelope (fork true false) 1 none 1
  let r₁ := Stamps.zero.receive "source" origin
  let r₂ := r₁.bump "source"
  let toLeft := r₂.envelope "source" 2 ((fork true false).addr (some false)) 1
  let r₃ := r₂.bump "source"
  let toRight := r₃.envelope "source" 3 ((fork true false).addr (some true)) 1
  let a₁ := Stamps.zero.receive "left" toLeft
  let b₁ := Stamps.zero.receive "right" toRight
  [emitEvent "world" 1 origin, recvEvent "source" r₁.seq r₁.clock r₁.lamport.val origin,
    emitEvent "source" r₂.seq toLeft, emitEvent "source" r₃.seq toRight,
    recvEvent "left" a₁.seq a₁.clock a₁.lamport.val toLeft,
    recvEvent "right" b₁.seq b₁.clock b₁.lamport.val toRight]

section Fork

variable (apart first : Bool)

theorem fork_named : Named (fork apart first) := by
  cases apart <;> cases first <;> exact ⟨by decide, by decide⟩

theorem forkRun_end : ∃ s, Run (fork apart false) forkRun s ∧ s.events = forkLog := by
  have hlog : (Transition.exec (step (fork apart false)) forkRun (.init (fork apart false))).map
      (·.events) = some forkLog := by
    cases apart <;> rfl
  exact Option.map_eq_some_iff.mp hlog

theorem fork_reshapes : Reshapes (fork apart false) (fork apart first) :=
  ⟨fun _ => rfl, fun i => by cases i <;> rfl⟩

/-- The replay of the fork with the source's sends in either order. -/
def forked : ReplaySystem Bool Nat Unit :=
  ((fork apart first).respawn [none, some false, some true]).origin ((fork apart first).addr none) 1

theorem forked_rebuilds : Rebuilds (fork apart first) (forked apart first) := by
  have hr : Rebuilds (fork apart first)
      ((fork apart first).respawn [none, some false, some true]) :=
    rebuilds_of_respawn (fork_named apart first) (by decide)
  exact hr.origin _ _

theorem forked_resupplies : Resupplies (fork apart false) forkLog (forked apart first).origins := by
  intro k we o hwe ho
  have hdst : ((RecordedIndex.build forkLog).emitsByActor "world").map (·.dst) = [some "source"] := by
    decide
  have hget := congrArg (·[k]?) hdst
  simp only [List.getElem?_map, hwe, Option.map_some] at hget
  cases k with
  | zero =>
    cases ho
    exact ⟨Option.some.inj hget, none, rfl, rfl⟩
  | succ => cases ho

end Fork

/-- The drifted source sends to `right` first: its message waits under the msg_id that `left`
received, and `left` panics. -/
theorem swapped_panics : (forked true true).replay forkLog =
    .error (.panicked "replay topology mismatch: wrong message type for actor") := rfl

theorem swapped_silent : ¬ Reports (fork true false) (forked true true) forkLog := by
  rintro ⟨⟨out, hout⟩, -⟩
  cases swapped_panics.symm.trans hout

/-- Same names, same message types, the origin re-supplied, and the replay does not return. -/
theorem drift_crashes : ¬ ∀ ls (s : Config (Option Bool) Bool Nat Unit),
    Run (fork true false) ls s →
    ∀ (sys' : Topology (Option Bool) Bool Nat Unit) rs, Reshapes (fork true false) sys' →
      Rebuilds sys' rs → Resupplies (fork true false) s.events rs.origins →
        Reports (fork true false) rs s.events := by
  intro h
  obtain ⟨s, hrun, hev⟩ := forkRun_end true
  have hrep := h _ s hrun _ (forked true true) (fork_reshapes true true) (forked_rebuilds true true)
    (hev ▸ forked_resupplies true true)
  rw [hev] at hrep
  exact swapped_silent hrep

/-- In the timeline `left` has received before the second send. -/
def forkTimeline : List CausalEvent := [0, 1, 2, 4, 3, 5].filterMap (forkLog[·]?)

/-- Whether the call about to be made, where it is a send, goes where the emit recorded at its
position went. -/
def keepsRecipient (log : List CausalEvent) (m : Machine Bool Nat Unit) : Bool :=
  match m.actions with
  | .send addr _ :: _ =>
    ((RecordedIndex.build log).emitsByActor m.current)[m.sendIndex]?.any fun e =>
      e.parsedMid == some ((RecordedIndex.build log).sendMid m.current m.sendIndex) &&
        e.dst == some addr.id
  | _ => true

/-- The sends of the replay of the fork as it ran keep the recorded recipients. -/
theorem forked_keeps : KeepsRecipients (forked true false) forkLog := by
  have hok : (replayLog forkLog).toOption.map (·.timeline) = some forkTimeline := by decide
  have hlen : ((Machine.init (forked true false) forkLog forkTimeline).trace
      (forked true false).origins 16).length ≤ 16 := by decide
  have hall : ((Machine.init (forked true false) forkLog forkTimeline).trace
      (forked true false).origins 16).all (keepsRecipient forkLog) = true := by decide
  intro r m hlog hm n addr ev hdraws _
  rw [hlog] at hok
  have htl : r.timeline = forkTimeline := Option.some.inj hok
  rw [htl] at hm
  obtain ⟨msg, as, hactions⟩ := hdraws.call
  have hsend := List.all_eq_true.mp hall m (hm.mem_trace hlen)
  rw [keepsRecipient, hactions] at hsend
  obtain ⟨e, he, hcheck⟩ := (Option.any_eq_true _ _).mp hsend
  have hkey := hdraws.key
  rw [hm.recorded] at hkey
  simp only [hkey, Bool.and_eq_true, beq_iff_eq] at hcheck
  exact ⟨e, he, hcheck⟩

/-- The swapped sends are not aligned where the types are apart, and are reported where they are
not. -/
theorem drift_reported_iff_fork : ¬ Aligned (fork true false) (forked true true) forkLog ∧
    Reports (fork true false) (forked true false) forkLog ∧
    Reports (fork false false) (forked false true) forkLog ∧
    ((forked false true).replay forkLog).toOption.map ReplayOutcome.isFaithful = some false := by
  have hworld : forkLog.countP (·.actor = "world") ≤ 1 := by decide
  obtain ⟨s, hrun, hev⟩ := forkRun_end true
  obtain ⟨s', hrun', hev'⟩ := forkRun_end false
  refine ⟨fun hal => swapped_silent ?_, ?_, ?_, by decide⟩
  · exact (drift_reported_iff (fork_named true false) hrun (.of_eq hev.symm)
      (fork_reshapes true true) (forked_rebuilds true true)
      (forked_resupplies true true)).1.mpr ⟨hworld, hal⟩
  · exact (drift_reported_iff (fork_named true false) hrun (.of_eq hev.symm)
      (fork_reshapes true false) (forked_rebuilds true false)
      (forked_resupplies true false)).2.2 hworld forked_keeps
  · exact (drift_reported_iff (fork_named false false) hrun' (.of_eq hev'.symm)
      (fork_reshapes false true) (forked_rebuilds false true) (forked_resupplies false true)).2.1
      hworld (by decide)

end Prod

end Lichtung
