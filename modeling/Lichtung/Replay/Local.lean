import Lichtung.Replay.Verdict

/-!
# What one actor does in a replay

A rebuilt actor does not see the shared state: what it records and sends, and how its state and
stamps move, depends on its own history, the envelopes it is handed and the msg_ids recorded for its
sends.  An `Outbox` is a third backend, which only hands out those msg_ids and collects; a `Local`
is an actor running under it.

Principal results: `performAll_effect` (what a handler does to the shared state is what it does to
an outbox), `Local.act_outcome` (what one activation of an actor adds) and `Driver.drive_local` (a drive
is one activation of its actor, and leaves the others alone).
-/

namespace Lichtung

variable {τ α σ : Type}

/-- The msg_id of the send number `j` (from 0) of an actor: the recorded one or the sentinel. -/
def RecordedIndex.sendMid (idx : RecordedIndex) (a : ActorId) (j : Nat) : Nat :=
  ((idx.emitsByActor a)[j]?.bind CausalEvent.parsedMid).getD (2 ^ 64 - 1 - (j + 1))

/-! ## The outbox -/

/-- The msg_ids at hand, the number of sends so far, what was recorded and what was sent. -/
structure Outbox (τ α : Type) where
  mids : Nat → Nat
  sends : Nat
  events : List CausalEvent
  sent : List (Envelope τ α)

namespace Outbox

instance : Dispatch (Outbox τ α) τ α where
  nextMsgId o := (o.mids o.sends, { o with sends := o.sends + 1 })
  record e o := { o with events := o.events ++ [e] }
  deliver env o := { o with sent := o.sent ++ [env] }

/-- With more recorded and sent. -/
def add (o : Outbox τ α) (es : List CausalEvent) (envs : List (Envelope τ α)) : Outbox τ α :=
  { o with sends := o.sends + envs.length, events := o.events ++ es, sent := o.sent ++ envs }

@[simp] theorem add_mids (o : Outbox τ α) (es : List CausalEvent) (envs : List (Envelope τ α)) :
    (o.add es envs).mids = o.mids := rfl

@[simp] theorem add_sends (o : Outbox τ α) (es : List CausalEvent) (envs : List (Envelope τ α)) :
    (o.add es envs).sends = o.sends + envs.length := rfl

@[simp] theorem add_events (o : Outbox τ α) (es : List CausalEvent)
    (envs : List (Envelope τ α)) : (o.add es envs).events = o.events ++ es := rfl

@[simp] theorem add_sent (o : Outbox τ α) (es : List CausalEvent) (envs : List (Envelope τ α)) :
    (o.add es envs).sent = o.sent ++ envs := rfl

theorem add_nil (o : Outbox τ α) : o.add [] [] = o := by
  simp [add]

theorem add_record (o : Outbox τ α) (e : CausalEvent) : o.add [e] [] = Dispatch.record e o := by
  simp [add, Dispatch.record]

theorem add_add (o : Outbox τ α) (es es' : List CausalEvent) (envs envs' : List (Envelope τ α)) :
    (o.add es envs).add es' envs' = o.add (es ++ es') (envs ++ envs') := by
  simp [add, Nat.add_assoc]

end Outbox

/-! ## What a handler adds -/

/-- Between the stamps `c` and `c'` the actor `id` recorded `es` and sent `envs`. -/
structure Outcome (id : ActorId) (c c' : Stamps) (es : List CausalEvent)
    (envs : List (Envelope τ α)) : Prop where
  actor : ∀ e ∈ es, e.actor = id
  ids : ∀ e ∈ es, e.id = idOf e.actor e.seq
  seqs : es.map (·.seq) = List.range' (c.seq + 1) es.length
  reached : c'.seq = c.seq + es.length
  announced : List.Forall₂ Announced (es.filter (·.op = .emit)) envs

theorem Outcome.refl (id : ActorId) (c : Stamps) : Outcome id c c [] ([] : List (Envelope τ α)) where
  actor := fun e he => by cases he
  ids := fun e he => by cases he
  seqs := rfl
  reached := rfl
  announced := .nil

theorem Outcome.trans {id : ActorId} {c c' c'' : Stamps} {es es' : List CausalEvent}
    {envs envs' : List (Envelope τ α)} (h : Outcome id c c' es envs)
    (h' : Outcome id c' c'' es' envs') : Outcome id c c'' (es ++ es') (envs ++ envs') where
  actor := fun e he => (List.mem_append.mp he).elim (h.actor e) (h'.actor e)
  ids := fun e he => (List.mem_append.mp he).elim (h.ids e) (h'.ids e)
  seqs := by
    rw [List.map_append, h.seqs, h'.seqs, h.reached, List.length_append, List.range'_append_1.symm]
    congr 2
    omega
  reached := by rw [h'.reached, h.reached, List.length_append, Nat.add_assoc]
  announced := by
    rw [List.filter_append]
    exact List.rel_append h.announced h'.announced

theorem Outcome.src {id : ActorId} {c c' : Stamps} {es : List CausalEvent}
    {envs : List (Envelope τ α)} (h : Outcome id c c' es envs) : ∀ env ∈ envs, env.src = id := by
  intro env henv
  obtain ⟨e, he, ha⟩ := announced_of_mem h.announced henv
  rw [← ha.actor]
  exact h.actor e (List.mem_of_mem_filter he)

section Perform

variable {id : ActorId} {c : Stamps}

theorem send_outcome (id : ActorId) (c : Stamps) (addr : Addr τ) (msg : α) (m : Nat) :
    Outcome id c (c.bump id) [emitEvent id (c.bump id).seq ((c.bump id).envelope id m addr msg)]
      [(c.bump id).envelope id m addr msg] where
  actor := fun e he => by rw [List.mem_singleton.mp he]; rfl
  ids := fun e he => by rw [List.mem_singleton.mp he]; rfl
  seqs := rfl
  reached := rfl
  announced := .cons (emitEvent_announced id _ m _ addr msg) .nil

theorem compute_outcome : Outcome id c (c.bump id)
    [computeEvent id (c.bump id).seq (c.bump id).clock (c.bump id).lamport.val]
    ([] : List (Envelope τ α)) where
  actor := fun e he => by rw [List.mem_singleton.mp he]; rfl
  ids := fun e he => by rw [List.mem_singleton.mp he]; rfl
  seqs := rfl
  reached := rfl
  announced := .nil

theorem recv_outcome (env : Envelope τ α) : Outcome id c (c.receive id env)
    [recvEvent id (c.receive id env).seq (c.receive id env).clock (c.receive id env).lamport.val env]
    ([] : List (Envelope τ α)) where
  actor := fun e he => by rw [List.mem_singleton.mp he]; rfl
  ids := fun e he => by rw [List.mem_singleton.mp he]; rfl
  seqs := rfl
  reached := rfl
  announced := .nil

end Perform

/-! ## What the shared state makes of it -/

/-- What goes into `pending`, one envelope at a time. -/
def stash (pending : Nat → Option (Envelope τ α)) (envs : List (Envelope τ α)) :
    Nat → Option (Envelope τ α) :=
  envs.foldl (fun p env => Function.update p env.msgId (some env)) pending

/-- The send number `j` (from 0) of the actor has no recorded msg_id. -/
def OverSend (idx : RecordedIndex) (a : ActorId) (j : Nat) : Prop :=
  (idx.emitsByActor a)[j]?.bind CausalEvent.parsedMid = none

/-- The name under which an extra send is reported is not the id of an event. -/
theorem idOf_ne_send (a b : ActorId) (n j : Nat) : a ++ ":send" ++ j.repr ≠ idOf b n := by
  intro h
  have hl := congrArg String.toList h
  simp only [idOf, String.toList_append, List.append_assoc] at hl
  have hcolon : ':' ∉ ['s', 'e', 'n', 'd'] ++ j.repr.toList := by
    simpa using colon_not_mem_repr j
  obtain ⟨-, hn⟩ := cut_at_last (c := ':') hcolon (colon_not_mem_repr n) hl
  have hs : 's' ∈ n.repr.toList := by
    rw [← hn]
    simp
  exact absurd (Decimal.isDigit_of_mem_repr hs) (by decide)

/-- The shared state after the actor `id` has recorded `es` and sent `envs`. -/
structure Effect (id : ActorId) (es : List CausalEvent) (envs : List (Envelope τ α))
    (s s' : ReplayState τ α) : Prop where
  recorded : s'.recorded = s.recorded
  sendCount : s'.sendCount = Function.update s.sendCount id (s.sendCount id + envs.length)
  pending : s'.pending = stash s.pending envs
  produced : ∀ x, x ∈ s'.produced ↔ x ∈ s.produced ∨ ∃ e ∈ es, e.id = x
  journal : s'.journal =
    { s.journal with events := s.journal.events ++ es, sent := s.journal.sent ++ envs }
  mids : ∀ i env, envs[i]? = some env → env.msgId = s.recorded.sendMid id (s.sendCount id + i)
  divergences : ∃ ds, s'.divergences = s.divergences ++ ds ∧ ∀ x ∈ ds,
    (∃ e ∈ es, x.eventId = e.id ∧ s.recorded.byId e.id ≠ some e) ∨
      ∃ j < s.sendCount id + envs.length, OverSend s.recorded id j ∧
        x.eventId = id ++ ":send" ++ (j + 1).repr
  reported : ∀ j, s.sendCount id ≤ j → j < s.sendCount id + envs.length →
    OverSend s.recorded id j → s'.divergences ≠ []

namespace Effect

theorem refl (id : ActorId) (s : ReplayState τ α) : Effect id [] [] s s where
  recorded := rfl
  sendCount := (Function.update_eq_self id _).symm
  pending := rfl
  produced := by simp
  journal := by simp
  mids := by simp
  divergences := ⟨[], by simp, by simp⟩
  reported := fun j h h' => by simp at h'; omega

theorem trans {id : ActorId} {es es' : List CausalEvent} {envs envs' : List (Envelope τ α)}
    {s s' s'' : ReplayState τ α} (h : Effect id es envs s s') (h' : Effect id es' envs' s' s'') :
    Effect id (es ++ es') (envs ++ envs') s s'' := by
  have hcount : s'.sendCount id = s.sendCount id + envs.length := by
    rw [h.sendCount, Function.update_self]
  obtain ⟨ds, hds, hall⟩ := h.divergences
  obtain ⟨ds', hds', hall'⟩ := h'.divergences
  refine {
    recorded := h'.recorded.trans h.recorded
    sendCount := ?_
    pending := ?_
    produced := fun x => ?_
    journal := ?_
    mids := fun i env hi => ?_
    divergences := ⟨ds ++ ds', by rw [hds', hds, List.append_assoc], fun x hx => ?_⟩
    reported := fun j hlo hhi hover => ?_ }
  · rw [h'.sendCount, hcount, h.sendCount, Function.update_idem, List.length_append, Nat.add_assoc]
  · rw [h'.pending, h.pending, stash, stash, stash, List.foldl_append]
  · rw [h'.produced, h.produced, or_assoc]
    simp only [List.mem_append, or_and_right, exists_or]
  · rw [h'.journal, h.journal]
    simp
  · by_cases hlt : i < envs.length
    · rw [List.getElem?_append_left hlt] at hi
      exact h.mids i env hi
    · rw [List.getElem?_append_right (Nat.le_of_not_lt hlt)] at hi
      rw [h'.mids _ env hi, h.recorded, hcount]
      congr 1
      omega
  · rcases List.mem_append.mp hx with hx | hx
    · rcases hall x hx with ⟨e, he, hid, hne⟩ | ⟨j, hj, hover, hid⟩
      · exact .inl ⟨e, List.mem_append_left _ he, hid, hne⟩
      · exact .inr ⟨j, by rw [List.length_append]; omega, hover, hid⟩
    · rw [h.recorded, hcount] at hall'
      rcases hall' x hx with ⟨e, he, hid, hne⟩ | ⟨j, hj, hover, hid⟩
      · exact .inl ⟨e, List.mem_append_right _ he, hid, hne⟩
      · exact .inr ⟨j, by rw [List.length_append]; omega, hover, hid⟩
  · by_cases hlt : j < s.sendCount id + envs.length
    · have hne := h.reported j hlo hlt hover
      rw [hds']
      simp [hne]
    · refine h'.reported j (by omega) ?_ (by rw [h.recorded]; exact hover)
      rw [List.length_append] at hhi
      omega

end Effect

/-- What `verify` appends, if anything, names the event. -/
theorem mismatch_cases (s : ReplayState τ α) (e : CausalEvent) {x : Divergence}
    (hx : x ∈ s.mismatch e) : x.eventId = e.id ∧ s.recorded.byId e.id ≠ some e := by
  unfold ReplayState.mismatch at hx
  split at hx
  · rename_i r hr
    split at hx
    · cases hx
    · rename_i hne
      rw [List.mem_singleton.mp hx]
      exact ⟨rfl, by rw [hr]; simpa using hne⟩
  · rename_i hr
    rw [List.mem_singleton.mp hx]
    exact ⟨rfl, by rw [hr]; simp⟩

/-- `verify` alone. -/
theorem verify_effect (id : ActorId) (s : ReplayState τ α) (e : CausalEvent) :
    Effect id [e] [] s (s.verify e) where
  recorded := rfl
  sendCount := (Function.update_eq_self id _).symm
  pending := rfl
  produced := fun x => by simp [ReplayState.verify, or_comm, eq_comm]
  journal := by simp [ReplayState.verify]
  mids := by simp
  divergences := by
    refine ⟨s.mismatch e, rfl, fun x hx => .inl ⟨e, List.mem_singleton_self e, ?_⟩⟩
    exact mismatch_cases s e hx
  reported := fun j h h' => by simp at h'; omega

section Perform

variable {id : ActorId} {c : Stamps} {s : ReplayState τ α}

/-- Taking a msg_id: the send is counted, and reported when it has no recorded msg_id. -/
theorem nextMsgId_eq (s : ReplayState τ α) (id : ActorId) : ∃ ds,
    ReplayDispatch.nextMsgId ⟨s, id⟩ = (s.recorded.sendMid id (s.sendCount id), ⟨{ s with
      sendCount := Function.update s.sendCount id (s.sendCount id + 1)
      divergences := s.divergences ++ ds }, id⟩) ∧
    (∀ x ∈ ds, OverSend s.recorded id (s.sendCount id) ∧
      x.eventId = id ++ ":send" ++ (s.sendCount id + 1).repr) ∧
    (OverSend s.recorded id (s.sendCount id) → ds ≠ []) := by
  cases hm : (s.recorded.emitsByActor id)[s.sendCount id]?.bind CausalEvent.parsedMid with
  | some m =>
    refine ⟨[], ?_, by simp, fun h => ?_⟩
    · simp [ReplayDispatch.nextMsgId, RecordedIndex.sendMid, hm]
    · rw [OverSend, hm] at h
      cases h
  | none =>
    refine ⟨[⟨id ++ ":send" ++ (s.sendCount id + 1).repr, .moreSends⟩], ?_, fun x hx => ?_, by simp⟩
    · simp [ReplayDispatch.nextMsgId, RecordedIndex.sendMid, hm, ReplayState.diverge]
    · rw [List.mem_singleton.mp hx]
      exact ⟨hm, rfl⟩

/-- A send: the sender's next msg_id, `verify`, `pending`. -/
theorem send_effect [Counter] (addr : Addr τ) (msg : α) {m : Nat}
    (hm : m = s.recorded.sendMid id (s.sendCount id)) : ∃ s',
    Context.send id addr msg c (⟨s, id⟩ : ReplayDispatch τ α) = (c.bump id, ⟨s', id⟩) ∧
      Effect id [emitEvent id (c.bump id).seq ((c.bump id).envelope id m addr msg)]
        [(c.bump id).envelope id m addr msg] s s' := by
  obtain ⟨ds, hnext, hds, hover⟩ := nextMsgId_eq s id
  rw [← hm] at hnext
  obtain ⟨env, henv⟩ : ∃ env, env = (c.bump id).envelope id m addr msg := ⟨_, rfl⟩
  have hmid : env.msgId = m := by rw [henv]; rfl
  obtain ⟨e, he⟩ : ∃ e, e = emitEvent id (c.bump id).seq env := ⟨_, rfl⟩
  rw [← henv, ← he]
  refine ⟨({ s with
    sendCount := Function.update s.sendCount id (s.sendCount id + 1)
    divergences := s.divergences ++ ds }.verify e).deliver env, ?_, ?_⟩
  · simp only [Context.send, Dispatch.nextMsgId, hnext, ← henv, ← he]
    rfl
  · refine {
      recorded := rfl
      sendCount := rfl
      pending := rfl
      produced := fun x => by simp [ReplayState.verify, ReplayState.deliver, or_comm, eq_comm]
      journal := rfl
      mids := fun i env' hi => ?_
      divergences := ?_
      reported := fun j hlo hhi hj => ?_ }
    · obtain ⟨rfl, rfl⟩ : i = 0 ∧ env = env' := by
        cases i with
        | zero => simpa using hi
        | succ i => simp at hi
      rw [hmid, hm, Nat.add_zero]
    · refine ⟨ds ++ ReplayState.mismatch _ e, by rw [← List.append_assoc]; rfl, fun x hx => ?_⟩
      rcases List.mem_append.mp hx with hx | hx
      · exact .inr ⟨s.sendCount id, Nat.lt_succ_self _, hds x hx⟩
      · exact .inl ⟨e, List.mem_singleton_self e, mismatch_cases _ e hx⟩
    · obtain rfl : j = s.sendCount id := by
        rw [List.length_singleton] at hhi
        omega
      have hne := hover hj
      intro hnil
      have happ : (s.divergences ++ ds) ++ ReplayState.mismatch _ e = [] := hnil
      exact hne (List.append_eq_nil_iff.mp (List.append_eq_nil_iff.mp happ).1).2

/-- **What a handler does to the shared state is what it does to an outbox.** -/
theorem performAll_effect (id : ActorId) : ∀ (as : List (Action (Addr τ) α)) (c : Stamps)
    (s : ReplayState τ α) (o : Outbox τ α), o.mids = s.recorded.sendMid id → o.sends = s.sendCount id →
    ∃ c' es envs s', Outcome id c c' es envs ∧ (∀ e ∈ es, e.op ≠ .recv) ∧
      Context.performAll id as c o = (c', o.add es envs) ∧
      Context.performAll id as c (⟨s, id⟩ : ReplayDispatch τ α) = (c', ⟨s', id⟩) ∧
      Effect id es envs s s'
  | [], c, s, o, _, _ => ⟨c, [], [], s, .refl id c, by simp, by rw [o.add_nil]; rfl, rfl, .refl id s⟩
  | .compute :: as, c, s, o, hmids, hsends => by
    obtain ⟨c', es, envs, s', hout, hop, ho, hs, heff⟩ :=
      performAll_effect id as (c.bump id)
        (s.verify (computeEvent id (c.bump id).seq (c.bump id).clock (c.bump id).lamport.val))
        (o.add [computeEvent id (c.bump id).seq (c.bump id).clock (c.bump id).lamport.val] [])
        hmids hsends
    rw [Outbox.add_add, Outbox.add_record] at ho
    refine ⟨c', _, _, s', compute_outcome.trans hout, ?_, ho, hs, (verify_effect id s _).trans heff⟩
    exact List.forall_mem_cons.mpr ⟨by simp, hop⟩
  | .send addr msg :: as, c, s, o, hmids, hsends => by
    obtain ⟨m, hm⟩ : ∃ m, m = s.recorded.sendMid id (s.sendCount id) := ⟨_, rfl⟩
    obtain ⟨s₁, hsend, heff₁⟩ := send_effect (c := c) addr msg hm
    obtain ⟨env, henv⟩ : ∃ env, env = (c.bump id).envelope id m addr msg := ⟨_, rfl⟩
    have houtcome := send_outcome id c addr msg m
    rw [← henv] at heff₁ houtcome
    have hmids₁ : o.mids = s₁.recorded.sendMid id := by rw [heff₁.recorded, hmids]
    have hsends₁ : o.sends + 1 = s₁.sendCount id := by
      rw [heff₁.sendCount, Function.update_self, hsends]
      rfl
    obtain ⟨c', es, envs, s', hout, hop, ho, hs, heff⟩ :=
      performAll_effect id as (c.bump id) s₁ (o.add [emitEvent id (c.bump id).seq env] [env])
        hmids₁ hsends₁
    rw [Outbox.add_add] at ho
    refine ⟨c', _, _, s', houtcome.trans hout, ?_, ?_, ?_, heff₁.trans heff⟩
    · exact List.forall_mem_cons.mpr ⟨by simp, hop⟩
    · have hmo : o.mids o.sends = m := by rw [hmids, hsends, hm]
      rw [← ho, Context.performAll]
      simp only [Context.perform, Context.send, Dispatch.nextMsgId, hmo, ← henv]
      rfl
    · rw [Context.performAll, Context.perform, hsend]
      exact hs

end Perform

/-! ## One actor on its own -/

/-- A rebuilt actor, its stamps and its outbox. -/
structure Local (τ α σ : Type) where
  actor : TypedActor τ α σ
  stamps : Stamps
  out : Outbox τ α

namespace Local

/-- The actor before its `started`. -/
def fresh (idx : RecordedIndex) (a : ActorId) (t : TypedActor τ α σ) : Local τ α σ :=
  ⟨t, .zero, ⟨idx.sendMid a, 0, [], []⟩⟩

variable [DecidableEq τ]

/-- One call of `started` or `handle_any`. -/
def act (id : ActorId) (l : Local τ α σ) (msg : Option (Boxed τ α)) : Option (Local τ α σ) :=
  match Driver.invoke l.actor msg with
  | none => none
  | some (state, actions) =>
    let r := Context.performAll id actions l.stamps l.out
    some ⟨⟨l.actor.actor, state⟩, r.1, r.2⟩

/-- The recv-stamp. -/
def receive (id : ActorId) (l : Local τ α σ) (env : Envelope τ α) : Local τ α σ :=
  let c := l.stamps.receive id env
  { l with stamps := c, out := Dispatch.record (recvEvent id c.seq c.clock c.lamport.val env) l.out }

/-- What the actor is given: `started`, or an envelope. -/
def take (id : ActorId) (l : Local τ α σ) : Option (Envelope τ α) → Option (Local τ α σ)
  | none => l.act id none
  | some env => (l.receive id env).act id (some env.msg)

def run (id : ActorId) : List (Option (Envelope τ α)) → Local τ α σ → Option (Local τ α σ)
  | [], l => some l
  | x :: xs, l => (l.take id x).bind (run id xs)

theorem run_append (id : ActorId) : ∀ {xs ys : List (Option (Envelope τ α))} {l : Local τ α σ},
    run id (xs ++ ys) l = (run id xs l).bind (run id ys)
  | [], _, _ => rfl
  | x :: xs, ys, l => by
    rw [List.cons_append, run, run]
    cases l.take id x with
    | none => rfl
    | some l => exact run_append id

/-- What an actor has done since it was fresh. -/
structure Consistent (idx : RecordedIndex) (id : ActorId) (l : Local τ α σ) : Prop where
  mids : l.out.mids = idx.sendMid id
  sends : l.out.sends = l.out.sent.length
  outcome : Outcome id .zero l.stamps l.out.events l.out.sent
  sentMids : ∀ i env, l.out.sent[i]? = some env → env.msgId = idx.sendMid id i

omit [DecidableEq τ] in
theorem Consistent.fresh (idx : RecordedIndex) (id : ActorId) (t : TypedActor τ α σ) :
    (Local.fresh idx id t).Consistent idx id :=
  ⟨rfl, rfl, .refl id _, fun i env h => by simp [Local.fresh] at h⟩

omit [DecidableEq τ] in
theorem Consistent.receive {idx : RecordedIndex} {id : ActorId} {l : Local τ α σ}
    (h : l.Consistent idx id) (env : Envelope τ α) : (l.receive id env).Consistent idx id where
  mids := h.mids
  sends := h.sends
  outcome := by
    have := h.outcome.trans (recv_outcome (c := l.stamps) env)
    rwa [List.append_nil] at this
  sentMids := h.sentMids

/-- One activation adds events, none of them a recv, and what they announce. -/
theorem act_outcome {idx : RecordedIndex} {id : ActorId} {l l' : Local τ α σ}
    {msg : Option (Boxed τ α)} (h : l.Consistent idx id) (hl : l.act id msg = some l') :
    ∃ es envs, (∀ e ∈ es, e.op ≠ .recv) ∧ l'.out = l.out.add es envs ∧ l'.Consistent idx id := by
  unfold act at hl
  split at hl
  · cases hl
  · rename_i state actions hinv
    -- any shared state with this index and this many sends
    obtain ⟨c', es, envs, s', hout, hop, ho, -, heff⟩ := performAll_effect id actions
      l.stamps { ReplayState.init [] with recorded := idx, sendCount := fun _ => l.out.sends } l.out
      h.mids rfl
    simp only [ho, Option.some.injEq] at hl
    subst hl
    refine ⟨es, envs, hop, rfl, h.mids, ?_, h.outcome.trans hout, fun i env hi => ?_⟩
    · simp [h.sends]
    · simp only [Outbox.add_sent] at hi
      by_cases hlt : i < l.out.sent.length
      · rw [List.getElem?_append_left hlt] at hi
        exact h.sentMids i env hi
      · rw [List.getElem?_append_right (Nat.le_of_not_lt hlt)] at hi
        have hmid := heff.mids _ env hi
        simp only [h.sends] at hmid
        rwa [Nat.add_sub_cancel' (Nat.le_of_not_lt hlt)] at hmid

/-- The recv that an input is recorded by. -/
def recvOf (id : ActorId) (l : Local τ α σ) : Option (Envelope τ α) → List CausalEvent
  | none => []
  | some env =>
    let c := l.stamps.receive id env
    [recvEvent id c.seq c.clock c.lamport.val env]

theorem take_outcome {idx : RecordedIndex} {id : ActorId} {l l' : Local τ α σ}
    {x : Option (Envelope τ α)} (h : l.Consistent idx id) (hl : l.take id x = some l') :
    ∃ es envs, (∀ e ∈ es, e.op ≠ .recv) ∧ l'.out = l.out.add (l.recvOf id x ++ es) envs ∧
      l'.Consistent idx id := by
  cases x with
  | none =>
    have hl : l.act id none = some l' := hl
    exact act_outcome h hl
  | some env =>
    obtain ⟨es, envs, hop, hout, hcons⟩ := act_outcome (h.receive env) hl
    refine ⟨es, envs, hop, ?_, hcons⟩
    rw [hout]
    simp [receive, recvOf, Outbox.add, Dispatch.record]

theorem run_consistent {idx : RecordedIndex} {id : ActorId} :
    ∀ {xs : List (Option (Envelope τ α))} {l l' : Local τ α σ}, l.Consistent idx id →
      run id xs l = some l' → l'.Consistent idx id
  | [], _, _, h, hl => by cases hl; exact h
  | x :: xs, l, l', h, hl => by
    obtain ⟨l₁, h1, h2⟩ := Option.bind_eq_some_iff.mp hl
    obtain ⟨_, _, _, _, hcons⟩ := take_outcome h h1
    exact run_consistent hcons h2

/-- An actor only adds to its outbox. -/
theorem run_grows {idx : RecordedIndex} {id : ActorId} :
    ∀ {xs : List (Option (Envelope τ α))} {l l' : Local τ α σ}, l.Consistent idx id →
      run id xs l = some l' → l.out.events <+: l'.out.events ∧ l.out.sent <+: l'.out.sent
  | [], _, _, _, hl => by cases hl; exact ⟨List.prefix_rfl, List.prefix_rfl⟩
  | x :: xs, l, l', h, hl => by
    obtain ⟨l₁, h1, h2⟩ := Option.bind_eq_some_iff.mp hl
    obtain ⟨es, envs, -, hout, hcons⟩ := take_outcome h h1
    obtain ⟨hev, hsent⟩ := run_grows hcons h2
    rw [hout] at hev hsent
    exact ⟨(List.prefix_append ..).trans hev, (List.prefix_append ..).trans hsent⟩

end Local

/-! ## One actor in the driver -/

namespace Driver

/-- What the driver holds of the actor `a`. -/
structure Shows (d : Driver τ α σ) (a : ActorId) (l : Local τ α σ) : Prop where
  actor : d.actors[a]? = some l.actor
  stamps : d.clocks a = l.stamps
  mids : l.out.mids = d.state.recorded.sendMid a
  sends : l.out.sends = d.state.sendCount a
  events : l.out.events = d.state.journal.events.filter (·.actor = a)
  sent : l.out.sent = d.state.journal.sent.filter (·.src = a)

variable {d d' : Driver τ α σ} {a : ActorId} {es : List CausalEvent} {envs : List (Envelope τ α)}
  {c c' : Stamps}

/-- The events and envelopes of another actor. -/
theorem Shows.frame {b : ActorId} {l : Local τ α σ} (h : d.Shows b l) (hab : a ≠ b)
    (heff : Effect a es envs d.state d'.state) (hout : Outcome a c c' es envs)
    (hactor : d'.actors[b]? = d.actors[b]?) (hclock : d'.clocks b = d.clocks b) :
    d'.Shows b l where
  actor := hactor.trans h.actor
  stamps := hclock.trans h.stamps
  mids := by rw [heff.recorded]; exact h.mids
  sends := by rw [heff.sendCount, Function.update_of_ne hab.symm]; exact h.sends
  events := by
    rw [heff.journal, List.filter_append, ← h.events, List.filter_eq_nil_iff.mpr, List.append_nil]
    intro e he
    simpa [hout.actor e he] using hab
  sent := by
    rw [heff.journal, List.filter_append, ← h.sent, List.filter_eq_nil_iff.mpr, List.append_nil]
    intro env henv
    simpa [hout.src env henv] using hab

/-- The actor that recorded the events and sent the envelopes. -/
theorem Shows.add {l l' : Local τ α σ} (h : d.Shows a l)
    (heff : Effect a es envs d.state d'.state) (hout : Outcome a c c' es envs)
    (hl : l'.out = l.out.add es envs) (hactor : d'.actors[a]? = some l'.actor)
    (hclock : d'.clocks a = l'.stamps) : d'.Shows a l' where
  actor := hactor
  stamps := hclock
  mids := by rw [hl, heff.recorded]; exact h.mids
  sends := by
    rw [hl, heff.sendCount, Function.update_self, Outbox.add_sends, h.sends]
  events := by
    rw [hl, heff.journal, List.filter_append, ← h.events, Outbox.add_events]
    congr 1
    exact (List.filter_eq_self.mpr fun e he => by simpa using hout.actor e he).symm
  sent := by
    rw [hl, heff.journal, List.filter_append, ← h.sent, Outbox.add_sent]
    congr 1
    exact (List.filter_eq_self.mpr fun env henv => by simpa using hout.src env henv).symm

variable [DecidableEq τ]

/-- **A drive is one activation of its actor, and leaves the others alone.** -/
theorem drive_local {l : Local τ α σ} {msg : Option (Boxed τ α)} (h : d.Shows a l)
    (hd : d.drive a msg = .ok d') : ∃ l' es envs c', l.act a msg = some l' ∧ d'.Shows a l' ∧
      Outcome a l.stamps c' es envs ∧ Effect a es envs d.state d'.state ∧
      (∀ b, b ≠ a → d'.actors[b]? = d.actors[b]? ∧ d'.clocks b = d.clocks b) ∧
      ∀ b, b ∈ d'.actors ↔ b ∈ d.actors := by
  obtain ⟨t, state, actions, ht, hinv, rfl⟩ := drive_ok hd
  obtain rfl : t = l.actor := Option.some.inj (ht.symm.trans h.actor)
  obtain ⟨c', es, envs, s', hout, -, ho, hs, heff⟩ :=
    performAll_effect a actions l.stamps d.state l.out h.mids h.sends
  rw [h.stamps, hs] at hd ⊢
  refine ⟨⟨⟨l.actor.actor, state⟩, c', l.out.add es envs⟩, es, envs, c', ?_, ?_, hout, heff,
    fun b hb => ⟨?_, ?_⟩, fun b => ?_⟩
  · simp only [Local.act, hinv, ho]
  · exact h.add heff hout rfl Std.ExtTreeMap.getElem?_insert_self (Function.update_self ..)
  · rw [Std.ExtTreeMap.getElem?_insert, if_neg]
    rw [Std.LawfulEqCmp.compare_eq_iff_eq]
    exact hb.symm
  · exact Function.update_of_ne hb _ _
  · rw [Std.ExtTreeMap.mem_insert, Std.LawfulEqCmp.compare_eq_iff_eq]
    refine or_iff_right_of_imp ?_
    rintro rfl
    exact (getElem_of_getElem? ht).1

end Driver

end Lichtung
