import Lichtung.Replay.Local

/-!
# Any walk

What holds of the driver whatever it reports and whatever order it walks: which envelopes are still
in `pending`, what every reported divergence is about, and that every rebuilt actor has done what a
`Local` does on the envelopes it was handed.

Principal results: `Trail.effect`, `Trail.consume` (the shared state) and `Driver.Walk.recvLoop` (the
driver).
-/

namespace Lichtung

variable {τ α σ : Type}

/-! ## What stays in `pending` -/

/-- An envelope that shares its msg_id with no other one put into `pending` is still there, or was
taken out. -/
structure Kept (pending : Nat → Option (Envelope τ α)) (stashed taken : List (Envelope τ α)) :
    Prop where
  waiting : ∀ m env, pending m = some env → env.msgId = m ∧ env ∈ stashed
  kept : ∀ env ∈ stashed, (∀ env' ∈ stashed, env'.msgId = env.msgId → env' = env) →
    pending env.msgId = some env ∨ env ∈ taken

namespace Kept

variable {pending : Nat → Option (Envelope τ α)} {stashed taken : List (Envelope τ α)}

theorem put (h : Kept pending stashed taken) (env : Envelope τ α) :
    Kept (Function.update pending env.msgId (some env)) (stashed ++ [env]) taken where
  waiting m env' hp := by
    by_cases hm : m = env.msgId
    · subst hm
      rw [Function.update_self] at hp
      cases hp
      exact ⟨rfl, List.mem_append_right _ (List.mem_singleton_self env)⟩
    · rw [Function.update_of_ne hm] at hp
      obtain ⟨h1, h2⟩ := h.waiting m env' hp
      exact ⟨h1, List.mem_append_left _ h2⟩
  kept env' hmem huniq := by
    by_cases hm : env.msgId = env'.msgId
    · obtain rfl := huniq env (List.mem_append_right _ (List.mem_singleton_self env)) hm
      exact .inl (Function.update_self ..)
    · rw [Function.update_of_ne (Ne.symm hm)]
      rcases List.mem_append.mp hmem with hold | hnew
      · exact h.kept env' hold fun env'' h'' => huniq env'' (List.mem_append_left _ h'')
      · rw [List.mem_singleton.mp hnew] at hm
        exact absurd rfl hm

theorem stash : ∀ {pending : Nat → Option (Envelope τ α)} {stashed : List (Envelope τ α)},
    Kept pending stashed taken → ∀ envs : List (Envelope τ α),
      Kept (Lichtung.stash pending envs) (stashed ++ envs) taken
  | _, _, h, [] => by rw [List.append_nil]; exact h
  | _, _, h, env :: envs => by
    have := (h.put env).stash envs
    rwa [List.append_assoc, List.singleton_append] at this

theorem remove (h : Kept pending stashed taken) {m : Nat} {env : Envelope τ α}
    (hp : pending m = some env) :
    Kept (Function.update pending m none) stashed (taken ++ [env]) where
  waiting k env' hk := by
    by_cases hkm : k = m
    · subst hkm
      rw [Function.update_self] at hk
      cases hk
    · rw [Function.update_of_ne hkm] at hk
      exact h.waiting k env' hk
  kept env' hmem huniq := by
    obtain ⟨hid, hst⟩ := h.waiting m env hp
    by_cases hm : env'.msgId = m
    · rw [huniq env hst (hid.trans hm.symm)]
      exact .inr (List.mem_append_right _ (List.mem_singleton_self env'))
    · rw [Function.update_of_ne hm]
      exact (h.kept env' hmem huniq).imp_right (List.mem_append_left _)

end Kept

/-! ## The trail in the shared state -/

/-- What a divergence of a walk is about: an event `verify` did not find as it was produced, a send
past the recorded ones, or a recv that was not served. -/
inductive Charge (sys : ReplaySystem τ α σ) (log done : List CausalEvent) (s : ReplayState τ α)
    (x : Divergence) : Prop
  | mismatch {e : CausalEvent} (he : e ∈ s.journal.events) (hid : x.eventId = e.id)
      (hne : (RecordedIndex.build log).byId e.id ≠ some e)
  | overSend {a : ActorId} {j : Nat} (hj : j < s.sendCount a)
      (hover : OverSend (.build log) a j) (hid : x.eventId = a ++ ":send" ++ (j + 1).repr)
  | unserved {ev : CausalEvent} (hev : ev ∈ done) (hop : ev.op = .recv) (hid : x.eventId = ev.id)
      (hno : ev ∉ s.journal.consumed.map Prod.fst ∨ ev.actor ∉ sys.actors)

/-- A divergence stays accounted for while the walk goes on. -/
theorem Charge.mono {sys : ReplaySystem τ α σ} {log done done' : List CausalEvent}
    {s s' : ReplayState τ α} {x : Divergence} (h : Charge sys log done s x)
    (hevents : ∀ e ∈ s.journal.events, e ∈ s'.journal.events)
    (hcount : ∀ a, s.sendCount a ≤ s'.sendCount a)
    (hdone : ∀ ev ∈ done, ev ∈ done' ∧ (ev ∉ s.journal.consumed.map Prod.fst →
      ev ∉ s'.journal.consumed.map Prod.fst)) : Charge sys log done' s' x := by
  cases h with
  | mismatch he hid hne => exact .mismatch (hevents _ he) hid hne
  | overSend hj hover hid => exact .overSend (hj.trans_le (hcount _)) hover hid
  | unserved hev hop hid hno =>
    obtain ⟨hmem, hconsumed⟩ := hdone _ hev
    exact .unserved hmem hop hid (hno.imp_left hconsumed)

/-- The shared state after the events `done` were walked on `sys`, with the origins `seeds`. -/
structure Trail (sys : ReplaySystem τ α σ) (log : List CausalEvent)
    (seeds : List (CausalEvent × Envelope τ α)) (done : List CausalEvent)
    (s : ReplayState τ α) : Prop where
  recorded : s.recorded = .build log
  seeded : s.journal.seeded = seeds
  events : ∀ e ∈ s.journal.events, e.id = idOf e.actor e.seq ∧
    (e.actor ∈ sys.actors ∨ ∃ ev ∈ done, ev.op = .recv ∧ ev.actor = e.actor)
  senders : ∀ env ∈ s.journal.sent, env.src ∈ sys.actors
  walked : (s.journal.consumed.map Prod.fst).Sublist (done.filter (·.op = .recv))
  matched : ∀ t ∈ s.journal.consumed, t.1.parsedMid = some t.2.msgId
  kept : Kept s.pending s.journal.stashed (s.journal.consumed.map Prod.snd)
  produced : ∀ e, e ∈ s.journal.events ∨ e ∈ seeds.map Prod.fst → e.id ∈ s.produced
  charged : ∀ x ∈ s.divergences, Charge sys log done s x
  reported : ∀ a j, j < s.sendCount a → OverSend (.build log) a j → s.divergences ≠ []
  unsent : ∀ a, a ∉ sys.actors → s.sendCount a = 0

namespace Trail

variable {sys : ReplaySystem τ α σ} {log done : List CausalEvent}
  {seeds : List (CausalEvent × Envelope τ α)} {s s' : ReplayState τ α}

/-- The walk passes one more event. -/
theorem pass (h : Trail sys log seeds done s) (ev : CausalEvent) :
    Trail sys log seeds (done ++ [ev]) s where
  recorded := h.recorded
  seeded := h.seeded
  events e he := by
    obtain ⟨hid, hactor⟩ := h.events e he
    exact ⟨hid, hactor.imp_right fun ⟨r, hr, hrest⟩ => ⟨r, List.mem_append_left _ hr, hrest⟩⟩
  senders := h.senders
  walked := by
    rw [List.filter_append]
    exact h.walked.trans (List.sublist_append_left ..)
  matched := h.matched
  kept := h.kept
  produced := h.produced
  charged x hx := (h.charged x hx).mono (fun _ he => he) (fun _ => le_rfl) fun _ hev =>
    ⟨List.mem_append_left _ hev, id⟩
  reported := h.reported
  unsent := h.unsent

/-- One more divergence. -/
theorem diverge (h : Trail sys log seeds done s) {id : String} {detail : Detail}
    (hc : Charge sys log done s ⟨id, detail⟩) : Trail sys log seeds done (s.diverge id detail) where
  recorded := h.recorded
  seeded := h.seeded
  events := h.events
  senders := h.senders
  walked := h.walked
  matched := h.matched
  kept := h.kept
  produced := h.produced
  charged x hx := by
    have hx : Charge sys log done s x := by
      rcases List.mem_append.mp hx with hx | hx
      · exact h.charged x hx
      · rwa [List.mem_singleton.mp hx]
    exact hx.mono (fun _ he => he) (fun _ => le_rfl) fun _ hev => ⟨hev, fun hno => hno⟩
  reported := fun _ _ _ _ => ReplayState.diverge_ne_nil s id detail
  unsent := h.unsent

/-- A recv that finds nothing. -/
theorem miss (h : Trail sys log seeds done s) {ev : CausalEvent} (hop : ev.op = .recv)
    (hnew : ev ∉ done) (detail : Detail) :
    Trail sys log seeds (done ++ [ev]) (s.diverge ev.id detail) := by
  refine (h.pass ev).diverge (.unserved (by simp) hop rfl (.inl fun hmem => hnew ?_))
  exact List.mem_of_mem_filter (h.walked.subset hmem)

/-- A recv that takes an envelope out. -/
theorem consume (h : Trail sys log seeds done s) {ev : CausalEvent} (hop : ev.op = .recv)
    (hnew : ev ∉ done) {m : Nat} {env : Envelope τ α} (hm : ev.parsedMid = some m)
    (hp : s.pending m = some env) :
    Trail sys log seeds (done ++ [ev]) (s.consume ev m env) where
  recorded := h.recorded
  seeded := h.seeded
  events := (h.pass ev).events
  senders := h.senders
  walked := by
    show ((s.journal.consumed ++ [(ev, env)]).map Prod.fst).Sublist _
    rw [List.map_append, List.filter_append]
    refine h.walked.append ?_
    simp [hop]
  matched t ht := by
    rcases List.mem_append.mp ht with ht | ht
    · exact h.matched t ht
    · rw [List.mem_singleton.mp ht, hm, (h.kept.waiting m env hp).1]
  kept := by
    have := h.kept.remove hp
    rwa [← List.map_singleton (f := Prod.snd) (a := (ev, env)), ← List.map_append] at this
  produced := h.produced
  charged x hx := by
    refine (h.charged x hx).mono (fun _ he => he) (fun _ => le_rfl) fun r hr =>
      ⟨List.mem_append_left _ hr, fun hno hmem => ?_⟩
    have hmem : r ∈ (s.journal.consumed ++ [(ev, env)]).map Prod.fst := hmem
    rw [List.map_append, List.mem_append, List.map_singleton, List.mem_singleton] at hmem
    rcases hmem with hmem | rfl
    · exact hno hmem
    · exact hnew hr
  reported := h.reported
  unsent := h.unsent

/-- A drive of one actor, or the recv that precedes it. -/
theorem effect {a : ActorId} {c c' : Stamps} {es : List CausalEvent} {envs : List (Envelope τ α)}
    (h : Trail sys log seeds done s) (heff : Effect a es envs s s') (hout : Outcome a c c' es envs)
    (ha : a ∈ sys.actors ∨ envs = [] ∧ ∃ ev ∈ done, ev.op = .recv ∧ ev.actor = a) :
    Trail sys log seeds done s' where
  recorded := heff.recorded.trans h.recorded
  seeded := by rw [heff.journal]; exact h.seeded
  events e he := by
    rw [heff.journal] at he
    rcases List.mem_append.mp he with he | he
    · exact h.events e he
    · rw [hout.actor e he]
      exact ⟨hout.actor e he ▸ hout.ids e he, ha.imp_right And.right⟩
  senders env henv := by
    rw [heff.journal] at henv
    rcases List.mem_append.mp henv with henv | henv
    · exact h.senders env henv
    · rw [hout.src env henv]
      refine ha.resolve_right fun hnone => ?_
      rw [hnone.1] at henv
      cases henv
  walked := by rw [heff.journal]; exact h.walked
  matched := by rw [heff.journal]; exact h.matched
  kept := by
    rw [heff.pending, heff.journal]
    have := h.kept.stash envs
    rwa [Journal.stashed, List.append_assoc] at this
  produced e he := by
    rw [heff.journal] at he
    rw [heff.produced]
    rcases he with he | he
    · rcases List.mem_append.mp he with he | he
      · exact .inl (h.produced e (.inl he))
      · exact .inr ⟨e, he, rfl⟩
    · exact .inl (h.produced e (.inr he))
  charged x hx := by
    obtain ⟨ds, hds, hall⟩ := heff.divergences
    have hcount : ∀ b, s.sendCount b ≤ s'.sendCount b := by
      intro b
      rw [heff.sendCount]
      by_cases hb : b = a
      · rw [hb, Function.update_self]
        omega
      · rw [Function.update_of_ne hb]
    rw [hds] at hx
    rcases List.mem_append.mp hx with hx | hx
    · refine (h.charged x hx).mono (fun e he => ?_) hcount fun ev hev => ⟨hev, ?_⟩
      · rw [heff.journal]
        exact List.mem_append_left _ he
      · rw [heff.journal]
        exact id
    · rw [h.recorded] at hall
      rcases hall x hx with ⟨e, he, hid, hne⟩ | ⟨j, hj, hover, hid⟩
      · exact .mismatch (by rw [heff.journal]; exact List.mem_append_right _ he) hid hne
      · refine .overSend (a := a) ?_ hover hid
        rwa [heff.sendCount, Function.update_self]
  reported b j hj hover := by
    have hmono : s.divergences ≠ [] → s'.divergences ≠ [] := by
      obtain ⟨ds, hds, -⟩ := heff.divergences
      rw [hds]
      simp +contextual
    rw [heff.sendCount] at hj
    by_cases hb : b = a
    · subst hb
      rw [Function.update_self] at hj
      by_cases hlt : j < s.sendCount b
      · exact hmono (h.reported b j hlt hover)
      · exact heff.reported j (Nat.le_of_not_lt hlt) hj (by rw [h.recorded]; exact hover)
    · rw [Function.update_of_ne hb] at hj
      exact hmono (h.reported b j hj hover)
  unsent b hb := by
    rw [heff.sendCount]
    by_cases hba : b = a
    · subst hba
      rw [Function.update_self, h.unsent b hb, (ha.resolve_left hb).1]
      rfl
    · rw [Function.update_of_ne hba]
      exact h.unsent b hb

end Trail

/-! ## The driver -/

namespace Driver

variable {sys : ReplaySystem τ α σ} {log done : List CausalEvent}
  {seeds : List (CausalEvent × Envelope τ α)} {d d' : Driver τ α σ}

theorem Shows.consume {a : ActorId} {l : Local τ α σ} (h : d.Shows a l) (ev : CausalEvent) (m : Nat)
    (env : Envelope τ α) : ({ d with state := d.state.consume ev m env } : Driver τ α σ).Shows a l :=
  ⟨h.actor, h.stamps, h.mids, h.sends, h.events, h.sent⟩

theorem Shows.diverge {a : ActorId} {l : Local τ α σ} (h : d.Shows a l) (id : String)
    (detail : Detail) : ({ d with state := d.state.diverge id detail } : Driver τ α σ).Shows a l :=
  ⟨h.actor, h.stamps, h.mids, h.sends, h.events, h.sent⟩

/-- Stamping a recv is what `receive` does, and leaves the other actors alone. -/
theorem Shows.stampRecv {a b : ActorId} {l : Local τ α σ} (h : d.Shows b l) (env : Envelope τ α) :
    (d.stampRecv a env).Shows b (if b = a then l.receive a env else l) := by
  have heff : Effect a [_] [] d.state (d.stampRecv a env).state := verify_effect a d.state _
  by_cases hba : b = a
  · subst hba
    rw [if_pos rfl]
    refine h.add heff (recv_outcome (c := d.clocks b) env) ?_ h.actor ?_
    · simp only [Local.receive, h.stamps, Outbox.add_record]
    · rw [Local.receive, ← h.stamps]
      exact Function.update_self ..
  · rw [if_neg hba]
    exact h.frame (Ne.symm hba) heff (recv_outcome (c := d.clocks a) env) rfl
      (Function.update_of_ne hba _ _)

variable [DecidableEq τ]

/-- What a turn of the recv loop can do. -/
inductive RecvStep (ev : CausalEvent) (d d' : Driver τ α σ) : Prop
  | pass (hop : ev.op ≠ .recv) (heq : d' = d)
  | miss (hop : ev.op = .recv) (hnone : ∀ m, ev.parsedMid = some m → d.state.pending m = none)
      (detail : Detail) (heq : d' = { d with state := d.state.diverge ev.id detail })
  | unrebuilt (hop : ev.op = .recv) (m : Nat) (env : Envelope τ α) (hm : ev.parsedMid = some m)
      (henv : d.state.pending m = some env) (hactor : ev.actor ∉ d.actors)
      (heq : d' = { ({ d with state := d.state.consume ev m env }.stampRecv ev.actor env) with
        state := ({ d with state := d.state.consume ev m env }.stampRecv ev.actor env).state.diverge
          ev.id .notRebuilt })
  | deliver (hop : ev.op = .recv) (m : Nat) (env : Envelope τ α) (hm : ev.parsedMid = some m)
      (henv : d.state.pending m = some env) (hactor : ev.actor ∈ d.actors)
      (hdrive : ({ d with state := d.state.consume ev m env }.stampRecv ev.actor env).drive ev.actor
        (some env.msg) = .ok d')

theorem recvStep_cases {ev : CausalEvent} (h : d.recvStep ev = .ok d') : RecvStep ev d d' := by
  unfold recvStep at h
  split at h
  · rename_i hop
    cases h
    exact .pass hop rfl
  · rename_i hop
    have hop := not_not.mp hop
    split at h
    · rename_i hm
      cases h
      exact .miss hop (fun m hm' => by rw [hm] at hm'; cases hm') _ rfl
    · rename_i m hm
      split at h
      · rename_i henv
        cases h
        refine .miss hop (fun m' hm' => ?_) _ rfl
        rw [hm] at hm'
        cases hm'
        exact henv
      · rename_i env henv
        dsimp only at h
        split at h
        · rename_i hactor
          cases h
          exact .unrebuilt hop m env hm henv hactor rfl
        · rename_i hactor
          exact .deliver hop m env hm henv (not_not.mp hactor) h

/-- A drive consumes nothing and takes back no send. -/
theorem drive_keeps {a : ActorId} {msg : Option (Boxed τ α)} (h : d.drive a msg = .ok d') :
    d'.state.journal.consumed = d.state.journal.consumed ∧
      ∀ b, d.state.sendCount b ≤ d'.state.sendCount b := by
  obtain ⟨t, state, actions, -, -, rfl⟩ := drive_ok h
  obtain ⟨c', es, envs, s', -, -, -, hs, heff⟩ := performAll_effect a actions (d.clocks a)
    d.state ⟨d.state.recorded.sendMid a, d.state.sendCount a, [], []⟩ rfl rfl
  rw [hs]
  refine ⟨by rw [heff.journal], fun b => ?_⟩
  rw [heff.sendCount]
  by_cases hb : b = a
  · subst hb
    rw [Function.update_self]
    omega
  · rw [Function.update_of_ne hb]

/-- A turn of the recv loop takes back no send, and consumes the envelope that is pending for the
event, if any. -/
theorem recvStep_keeps {ev : CausalEvent} (h : d.recvStep ev = .ok d') :
    (∀ b, d.state.sendCount b ≤ d'.state.sendCount b) ∧
      ((d'.state.journal.consumed = d.state.journal.consumed ∧
          (ev.op = .recv → ∀ m, ev.parsedMid = some m → d.state.pending m = none)) ∨
        ∃ m env, ev.parsedMid = some m ∧ d.state.pending m = some env ∧
          d'.state.journal.consumed = d.state.journal.consumed ++ [(ev, env)]) := by
  cases recvStep_cases h with
  | pass hop heq =>
    rw [heq]
    exact ⟨fun b => le_rfl, .inl ⟨rfl, fun h => absurd h hop⟩⟩
  | miss hop hnone detail heq =>
    rw [heq]
    exact ⟨fun b => le_rfl, .inl ⟨rfl, fun _ => hnone⟩⟩
  | unrebuilt hop m env hm henv hactor heq =>
    rw [heq]
    exact ⟨fun b => le_rfl, .inr ⟨m, env, hm, henv, rfl⟩⟩
  | deliver hop m env hm henv hactor hdrive =>
    obtain ⟨hconsumed, hsends⟩ := drive_keeps hdrive
    exact ⟨hsends, .inr ⟨m, env, hm, henv, hconsumed⟩⟩

theorem recvLoop_sends : ∀ {evs : List CausalEvent} {d : Driver τ α σ}, recvLoop evs d = .ok d' →
    ∀ b, d.state.sendCount b ≤ d'.state.sendCount b
  | [], _, hd, b => by
    cases hd
    exact le_rfl
  | ev :: evs, d, hd, b => by
    obtain ⟨d₁, h1, h2⟩ := Except.bind_eq_ok.mp hd
    exact ((recvStep_keeps h1).1 b).trans (recvLoop_sends h2 b)

/-- What the actor `a` was given: its `started`, where the pass reached it, and the envelopes of its
recvs. -/
def inputs (names : List ActorId) (consumed : List (CausalEvent × Envelope τ α)) (a : ActorId) :
    List (Option (Envelope τ α)) :=
  (if a ∈ names then [none] else []) ++ (consumed.filter (·.1.actor = a)).map fun t => some t.2

omit [DecidableEq τ] in
theorem inputs_snoc (names : List ActorId) (consumed : List (CausalEvent × Envelope τ α))
    (t : CausalEvent × Envelope τ α) (a : ActorId) : inputs names (consumed ++ [t]) a =
      inputs names consumed a ++ if t.1.actor = a then [some t.2] else [] := by
  rw [inputs, inputs, List.filter_append, List.map_append, List.append_assoc]
  by_cases ha : t.1.actor = a <;> simp [ha]

/-- The actor `a` as rebuilt, after it was given `xs`. -/
def Ran (sys : ReplaySystem τ α σ) (log : List CausalEvent) (a : ActorId)
    (xs : List (Option (Envelope τ α))) (l : Local τ α σ) : Prop :=
  ∃ t, sys.actors[a]? = some t ∧ Local.run a xs (.fresh (.build log) a t) = some l

theorem Ran.consistent {a : ActorId} {xs : List (Option (Envelope τ α))} {l : Local τ α σ}
    (h : Ran sys log a xs l) : l.Consistent (.build log) a := by
  obtain ⟨t, -, hrun⟩ := h
  exact Local.run_consistent (.fresh _ a t) hrun

/-- The driver after the `started` pass over `names` and the events `done`: what each rebuilt actor
has done follows from what it was given. -/
structure Walk (sys : ReplaySystem τ α σ) (log : List CausalEvent)
    (seeds : List (CausalEvent × Envelope τ α)) (names : List ActorId) (done : List CausalEvent)
    (d : Driver τ α σ) : Prop where
  actors : ∀ a, a ∈ d.actors ↔ a ∈ sys.actors
  trail : Trail sys log seeds done d.state
  locals : ∀ a ∈ sys.actors, ∃ l, Ran sys log a (inputs names d.state.journal.consumed a) l ∧
    d.Shows a l

theorem Ran.snoc {a : ActorId} {xs : List (Option (Envelope τ α))} {x : Option (Envelope τ α)}
    {l l' : Local τ α σ} (h : Ran sys log a xs l) (hl : l.take a x = some l') :
    Ran sys log a (xs ++ [x]) l' := by
  obtain ⟨t, ht, hrun⟩ := h
  refine ⟨t, ht, ?_⟩
  rw [Local.run_append, hrun, Option.bind_some, Local.run, hl]
  rfl

/-- A drive of `a` in a state in which every rebuilt actor is where `R` says. -/
theorem drive_walk {a : ActorId} {msg : Option (Boxed τ α)} {R S : ActorId → Local τ α σ → Prop}
    (hactors : ∀ b, b ∈ d.actors ↔ b ∈ sys.actors) (htrail : Trail sys log seeds done d.state)
    (hlocals : ∀ b ∈ sys.actors, ∃ l, R b l ∧ d.Shows b l) (hd : d.drive a msg = .ok d')
    (hact : ∀ l l', R a l → l.act a msg = some l' → S a l')
    (hother : ∀ b l, b ≠ a → R b l → S b l) :
    (∀ b, b ∈ d'.actors ↔ b ∈ sys.actors) ∧ Trail sys log seeds done d'.state ∧
      ∀ b ∈ sys.actors, ∃ l, S b l ∧ d'.Shows b l := by
  obtain ⟨t, _, _, ht, -, -⟩ := drive_ok hd
  have ha : a ∈ sys.actors := (hactors a).mp (getElem_of_getElem? ht).1
  obtain ⟨l, hR, hl⟩ := hlocals a ha
  obtain ⟨l', es, envs, c', hl', hshows, hout, heff, hframe, hmem⟩ := drive_local hl hd
  refine ⟨fun b => (hmem b).trans (hactors b), htrail.effect heff hout (.inl ha), fun b hb => ?_⟩
  by_cases hba : b = a
  · subst hba
    exact ⟨l', hact l l' hR hl', hshows⟩
  · obtain ⟨k, hk, hshow⟩ := hlocals b hb
    exact ⟨k, hother b k hba hk, hshow.frame (Ne.symm hba) heff hout (hframe b hba).1
      (hframe b hba).2⟩

namespace Walk

variable {names : List ActorId} {ev : CausalEvent}

/-- One `started` of the first pass. -/
theorem start (h : d.Walk sys log seeds names done) (hconsumed : d.state.journal.consumed = [])
    {a : ActorId} (ha : a ∉ names) (hd : d.drive a none = .ok d') :
    d'.Walk sys log seeds (names ++ [a]) done ∧ d'.state.journal.consumed = [] := by
  have hact : ∀ l l', Ran sys log a (inputs names d.state.journal.consumed a) l →
      l.act a none = some l' → Ran sys log a (inputs (names ++ [a]) [] a) l' := by
    intro l l' hR hl
    have := hR.snoc (x := none) hl
    rw [hconsumed] at this
    simpa [inputs, ha] using this
  have hother : ∀ b l, b ≠ a → Ran sys log b (inputs names d.state.journal.consumed b) l →
      Ran sys log b (inputs (names ++ [a]) [] b) l := by
    intro b l hb hR
    rw [hconsumed] at hR
    simpa [inputs, hb] using hR
  obtain ⟨hactors, htrail, hlocals⟩ := drive_walk h.actors h.trail h.locals hd hact hother
  have hsame := (drive_keeps hd).1.trans hconsumed
  refine ⟨⟨hactors, htrail, ?_⟩, hsame⟩
  rw [hsame]
  exact hlocals

/-- **A turn of the recv loop, whatever it reports.** -/
theorem recvStep (h : d.Walk sys log seeds names done) (hnew : ev ∉ done)
    (hd : d.recvStep ev = .ok d') : d'.Walk sys log seeds names (done ++ [ev]) := by
  cases recvStep_cases hd with
  | pass hop heq =>
    rw [heq]
    exact ⟨h.actors, h.trail.pass ev, h.locals⟩
  | miss hop hnone detail heq =>
    rw [heq]
    refine ⟨h.actors, h.trail.miss hop hnew detail, fun a ha => ?_⟩
    obtain ⟨l, hR, hl⟩ := h.locals a ha
    exact ⟨l, hR, hl.diverge ev.id detail⟩
  | unrebuilt hop m env hm henv hactor heq =>
    have hsys : ev.actor ∉ sys.actors := fun ha => hactor ((h.actors _).mpr ha)
    have htrail := (h.trail.consume hop hnew hm henv).effect (verify_effect ev.actor _ _)
      (recv_outcome (c := d.clocks ev.actor) env) (.inr ⟨rfl, ev, by simp, hop, rfl⟩)
    rw [heq]
    refine ⟨h.actors, htrail.diverge (.unserved (by simp) hop rfl (.inr hsys)), fun a ha => ?_⟩
    obtain ⟨l, hR, hl⟩ := h.locals a ha
    have hne : ¬ a = ev.actor := fun heq => hsys (heq ▸ ha)
    refine ⟨l, ?_, ?_⟩
    · show Ran sys log a (inputs names (d.state.journal.consumed ++ [(ev, env)]) a) l
      rw [inputs_snoc, if_neg (Ne.symm hne), List.append_nil]
      exact hR
    · have := ((hl.consume ev m env).stampRecv (a := ev.actor) env).diverge ev.id .notRebuilt
      rwa [if_neg hne] at this
  | deliver hop m env hm henv hactor hdrive =>
    have htrail := (h.trail.consume hop hnew hm henv).effect (verify_effect ev.actor _ _)
      (recv_outcome (c := d.clocks ev.actor) env) (.inr ⟨rfl, ev, by simp, hop, rfl⟩)
    -- the receiver has stamped the envelope, the others are where they were
    have hstamped : ∀ b ∈ sys.actors, ∃ l',
        (∃ l, Ran sys log b (inputs names d.state.journal.consumed b) l ∧
          l' = if b = ev.actor then l.receive ev.actor env else l) ∧
        ({ d with state := d.state.consume ev m env }.stampRecv ev.actor env).Shows b l' := by
      intro b hb
      obtain ⟨l, hR, hl⟩ := h.locals b hb
      exact ⟨_, ⟨l, hR, rfl⟩, (hl.consume ev m env).stampRecv env⟩
    obtain ⟨hactors, htrail', hlocals⟩ := drive_walk
      (d := { d with state := d.state.consume ev m env }.stampRecv ev.actor env)
      (S := fun b => Ran sys log b (inputs names (d.state.journal.consumed ++ [(ev, env)]) b))
      h.actors htrail hstamped hdrive (by
        rintro l l' ⟨k, hk, rfl⟩ hl
        rw [if_pos rfl] at hl
        rw [inputs_snoc, if_pos rfl]
        exact hk.snoc hl) (by
        rintro b l hb ⟨k, hk, rfl⟩
        rw [if_neg hb, inputs_snoc, if_neg (Ne.symm hb), List.append_nil]
        exact hk)
    refine ⟨hactors, htrail', ?_⟩
    rw [(drive_keeps hdrive).1]
    exact hlocals

/-- The walk of a list of events. -/
theorem recvLoop : ∀ {evs done : List CausalEvent} {d : Driver τ α σ},
    d.Walk sys log seeds names done → (done ++ evs).Nodup → Driver.recvLoop evs d = .ok d' →
      d'.Walk sys log seeds names (done ++ evs)
  | [], done, _, h, _, hd => by
    cases hd
    rwa [List.append_nil]
  | ev :: evs, done, d, h, hnd, hd => by
    obtain ⟨d₁, h1, h2⟩ := Except.bind_eq_ok.mp hd
    have hnew : ev ∉ done := fun hmem =>
      (List.nodup_append'.mp hnd).2.2 hmem (List.mem_cons_self ..)
    rw [← List.singleton_append, ← List.append_assoc] at hnd ⊢
    exact (h.recvStep hnew h1).recvLoop hnd h2

/-- The `started` pass. -/
theorem startAll : ∀ {todo names : List ActorId} {d : Driver τ α σ},
    d.Walk sys log seeds names done → d.state.journal.consumed = [] → (names ++ todo).Nodup →
      Driver.startAll todo d = .ok d' → d'.Walk sys log seeds (names ++ todo) done
  | [], names, _, h, _, _, hd => by
    cases hd
    rwa [List.append_nil]
  | a :: todo, names, d, h, hconsumed, hnd, hd => by
    obtain ⟨d₁, h1, h2⟩ := Except.bind_eq_ok.mp hd
    have hnew : a ∉ names := fun hmem =>
      (List.nodup_append'.mp hnd).2.2 hmem (List.mem_cons_self ..)
    obtain ⟨hwalk, hsame⟩ := h.start hconsumed hnew h1
    rw [← List.singleton_append, ← List.append_assoc] at hnd ⊢
    exact hwalk.startAll hsame hnd h2

end Walk

end Driver

/-! ## The whole re-execution -/

section Reexecute

variable {sys : ReplaySystem τ α σ} {log timeline : List CausalEvent}
  {seeds : List (CausalEvent × Envelope τ α)}

/-- Seeding the supplied origins. -/
theorem seedOrigins_supplied {origins : List (ActorId × Boxed τ α)} {k : Nat}
    {wes : List CausalEvent} (h : Supplied origins k wes seeds) : ∀ s : ReplayState τ α,
    ∃ produced, (∀ p ∈ seeds, p.1.id ∈ produced) ∧ s.produced ⊆ produced ∧
      ReplayState.seedOrigins origins k wes s = { s with
        produced
        pending := stash s.pending (seeds.map Prod.snd)
        journal := { s.journal with seeded := s.journal.seeded ++ seeds } } := by
  induction h with
  | nil k => exact fun s => ⟨s.produced, by simp, subset_rfl, by simp [ReplayState.seedOrigins, stash]⟩
  | @cons k m we o wes pairs hm ho _ ih =>
    intro s
    obtain ⟨produced, hpairs, hsub, heq⟩ := ih (s.seed we (ReplayState.originEnvelope we m o))
    have hwe : we.id ∈ produced := hsub (Finset.mem_insert_self ..)
    refine ⟨produced, ?_, (Finset.subset_insert ..).trans hsub, ?_⟩
    · exact List.forall_mem_cons.mpr ⟨hwe, hpairs⟩
    · rw [ReplayState.seedOrigins, ReplayState.seedOrigin, hm, ho]
      dsimp only
      rw [heq]
      simp [ReplayState.seed, stash]

/-- The completeness pass. -/
theorem complete_eq : ∀ (es : List CausalEvent) (s : ReplayState τ α), ∃ ds,
    s.complete es = { s with divergences := s.divergences ++ ds } ∧
      ∀ x ∈ ds, ∃ e ∈ es, e.id ∉ s.produced ∧ x.eventId = e.id
  | [], s => ⟨[], by simp [ReplayState.complete], by simp⟩
  | e :: es, s => by
    rw [ReplayState.complete]
    by_cases he : e.id ∈ s.produced
    · rw [if_pos he]
      obtain ⟨ds, hds, hall⟩ := complete_eq es s
      refine ⟨ds, hds, fun x hx => ?_⟩
      obtain ⟨f, hf, hrest⟩ := hall x hx
      exact ⟨f, List.mem_cons_of_mem _ hf, hrest⟩
    · rw [if_neg he]
      obtain ⟨ds, hds, hall⟩ := complete_eq es (s.diverge e.id .notReproduced)
      refine ⟨⟨e.id, .notReproduced⟩ :: ds, ?_, fun x hx => ?_⟩
      · rw [hds]
        simp [ReplayState.diverge]
      · rcases List.mem_cons.mp hx with rfl | hx
        · exact ⟨e, List.mem_cons_self .., he, rfl⟩
        · obtain ⟨f, hf, hrest⟩ := hall x hx
          exact ⟨f, List.mem_cons_of_mem _ hf, hrest⟩

variable [DecidableEq τ]

/-- The driver once the origins are seeded. -/
theorem Supplied.walk (h : Supplied sys.origins 0 ((RecordedIndex.build log).emitsByActor "world")
    seeds) : (sys.seeded log).Walk sys log seeds [] [] ∧
      (sys.seeded log).state.journal.consumed = [] := by
  obtain ⟨produced, hpairs, -, heq⟩ := seedOrigins_supplied h (.init log)
  have hstate : (sys.seeded log).state = _ := heq
  have hkept : Kept (fun _ => none : Nat → Option (Envelope τ α)) [] [] :=
    ⟨fun m env h => (by cases h), fun env h => (by cases h)⟩
  refine ⟨⟨fun a => Iff.rfl, ?_, fun a ha => ?_⟩, by rw [hstate]; rfl⟩
  · rw [hstate]
    exact {
      recorded := rfl
      seeded := rfl
      events := fun e he => by cases he
      senders := fun env henv => by cases henv
      walked := List.nil_sublist _
      matched := fun t ht => by cases ht
      kept := by
        have := hkept.stash (seeds.map Prod.snd)
        simpa [Journal.stashed, ReplayState.init] using this
      produced := fun e he => by
        rcases he with he | he
        · cases he
        · obtain ⟨p, hp, rfl⟩ := List.mem_map.mp he
          exact hpairs p hp
      charged := fun x hx => by cases hx
      reported := fun a j hj => by cases hj
      unsent := fun _ _ => rfl }
  · have hget := Std.ExtTreeMap.getElem?_eq_some_getElem ha
    refine ⟨.fresh (.build log) a sys.actors[a], ⟨_, hget, ?_⟩, hget, rfl, ?_, ?_, ?_, ?_⟩
    all_goals rw [hstate]; rfl

/-- The driver of a re-execution once every `started` has run. -/
theorem reexecute_started {d : Driver τ α σ}
    (hsup : Supplied sys.origins 0 ((RecordedIndex.build log).emitsByActor "world") seeds)
    (h : sys.reexecute log timeline = .ok d) :
    ∃ d₁ d₂, Driver.Walk sys log seeds sys.actors.keys [] d₁ ∧ d₁.recvLoop timeline = .ok d₂ ∧
      d = { d₂ with state := d₂.state.complete log } := by
  obtain ⟨d₁, h1, h'⟩ := Except.bind_eq_ok.mp h
  obtain ⟨d₂, h2, h3⟩ := Except.bind_eq_ok.mp h'
  cases h3
  obtain ⟨hseeded, hconsumed⟩ := hsup.walk
  have hstarted : d₁.Walk sys log seeds ([] ++ sys.actors.keys) [] :=
    hseeded.startAll hconsumed Std.ExtTreeMap.nodup_keys h1
  exact ⟨d₁, d₂, hstarted, h2, rfl⟩

/-- **A re-execution is a walk of its timeline and the completeness pass.** -/
theorem reexecute_walk {d : Driver τ α σ}
    (hsup : Supplied sys.origins 0 ((RecordedIndex.build log).emitsByActor "world") seeds)
    (hnd : timeline.Nodup) (h : sys.reexecute log timeline = .ok d) :
    ∃ d', Driver.Walk sys log seeds sys.actors.keys timeline d' ∧
      d = { d' with state := d'.state.complete log } := by
  obtain ⟨d₁, d₂, hstarted, hloop, heq⟩ := reexecute_started hsup h
  have hwalked : d₂.Walk sys log seeds sys.actors.keys ([] ++ timeline) :=
    hstarted.recvLoop hnd hloop
  exact ⟨d₂, hwalked, heq⟩

end Reexecute

end Lichtung
