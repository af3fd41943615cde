import Lichtung.Lib.Pointwise
import Lichtung.Replay.Verdict

/-!
# What a replay does not see

The log holds no payloads, and a replay compares events.  Take two rebuilt systems and say which
payloads of each message type stand for one another; where their actors answer such payloads with
calls on the same addresses, in the same order and with payloads that again stand for one another,
no log tells the two systems apart.

Principal results: `Driver.Like.recvStep` (one turn of the recv loop) and `replay_blind`.
-/

namespace Lichtung

variable {τ α α' σ σ' : Type}

/-! ## Payloads that stand for one another -/

section Like

variable (M : τ → α → α' → Prop)

structure Boxed.Like (b : Boxed τ α) (b' : Boxed τ α') : Prop where
  typeId : b.typeId = b'.typeId
  val : M b.typeId b.val b'.val

/-- The same message but for its payload. -/
structure Envelope.Like (env : Envelope τ α) (env' : Envelope τ α') : Prop where
  msg : env.msg.Like M env'.msg
  vclock : env.vclock = env'.vclock
  lamport : env.lamport = env'.lamport
  msgId : env.msgId = env'.msgId
  src : env.src = env'.src
  dst : env.dst = env'.dst

/-- The same call but for the payload, which `R` relates for each address. -/
inductive Action.Like {A : Type} (R : A → α → α' → Prop) : Action A α → Action A α' → Prop where
  | send {addr : A} {msg : α} {msg' : α'} (h : R addr msg msg') :
      Like R (.send addr msg) (.send addr msg')
  | compute : Like R .compute .compute

/-- Two actors that answer alike in states related by `S`, making calls related by `R`. -/
structure Actor.Like {A : Type} (R : A → α → α' → Prop) (S : σ → σ' → Prop) (a : Actor A τ α σ)
    (a' : Actor A τ α' σ') : Prop where
  msgType : a.msgType = a'.msgType
  started : ∀ {x x'}, S x x' → S (a.started x).1 (a'.started x').1 ∧
    List.Forall₂ (Action.Like R) (a.started x).2 (a'.started x').2
  handle : ∀ {x x' msg msg'}, S x x' → M a.msgType msg msg' →
    S (a.handle x msg).1 (a'.handle x' msg').1 ∧
      List.Forall₂ (Action.Like R) (a.handle x msg).2 (a'.handle x' msg').2

/-- The payload of a call fits the type of the address it goes to. -/
abbrev Addr.Fits (addr : Addr τ) : α → α' → Prop := M addr.msgType

def TypedActor.Like (t : TypedActor τ α σ) (t' : TypedActor τ α' σ') : Prop :=
  ∃ S : σ → σ' → Prop, t.actor.Like M (Addr.Fits M) S t'.actor ∧ S t.state t'.state

/-- The same names, with actors that answer alike, and the same origins but for their payloads. -/
structure ReplaySystem.Like (sys : ReplaySystem τ α σ) (sys' : ReplaySystem τ α' σ') : Prop where
  actors : ∀ name : ActorId, Option.Rel (TypedActor.Like M) sys.actors[name]? sys'.actors[name]?
  origins : List.Forall₂ (fun o o' => o.1 = o'.1 ∧ o.2.Like M o'.2) sys.origins sys'.origins

/-- Replays that have reported the same and hold messages alike. -/
structure ReplayState.Like (s : ReplayState τ α) (s' : ReplayState τ α') : Prop where
  recorded : s.recorded = s'.recorded
  pending : ∀ m, Option.Rel (Envelope.Like M) (s.pending m) (s'.pending m)
  sendCount : s.sendCount = s'.sendCount
  divergences : s.divergences = s'.divergences
  produced : s.produced = s'.produced

structure Driver.Like (d : Driver τ α σ) (d' : Driver τ α' σ') : Prop where
  actors : ∀ name : ActorId, Option.Rel (TypedActor.Like M) d.actors[name]? d'.actors[name]?
  clocks : d.clocks = d'.clocks
  state : d.state.Like M d'.state

end Like

/-! ## The calls of a handler -/

section Steps

variable {M : τ → α → α' → Prop}

theorem emitEvent_like {env : Envelope τ α} {env' : Envelope τ α'} (h : env.Like M env')
    (a : ActorId) (seq : Nat) : emitEvent a seq env = emitEvent a seq env' := by
  simp [emitEvent, h.vclock, h.lamport, h.msgId, h.src, h.dst]

theorem recvEvent_like {env : Envelope τ α} {env' : Envelope τ α'} (h : env.Like M env')
    (a : ActorId) (seq : Nat) (clock : VectorClock) (lamport : Nat) :
    recvEvent a seq clock lamport env = recvEvent a seq clock lamport env' := by
  simp [recvEvent, h.msgId, h.src]

theorem receive_like {env : Envelope τ α} {env' : Envelope τ α'} (h : env.Like M env')
    (c : Stamps) (a : ActorId) : c.receive a env = c.receive a env' := by
  simp [Stamps.receive, h.vclock, h.lamport]

namespace ReplayState.Like

variable {s : ReplayState τ α} {s' : ReplayState τ α'} (h : s.Like M s')
include h

theorem diverge (id : String) (detail : Detail) : (s.diverge id detail).Like M (s'.diverge id detail) :=
  ⟨h.recorded, h.pending, h.sendCount, by simp [ReplayState.diverge, h.divergences], h.produced⟩

theorem verify (event : CausalEvent) : (s.verify event).Like M (s'.verify event) where
  recorded := h.recorded
  pending := h.pending
  sendCount := h.sendCount
  divergences := by simp [ReplayState.verify, ReplayState.mismatch, h.divergences, h.recorded]
  produced := by simp [ReplayState.verify, h.produced]

theorem deliver {env : Envelope τ α} {env' : Envelope τ α'} (henv : env.Like M env') :
    (s.deliver env).Like M (s'.deliver env') where
  recorded := h.recorded
  pending := by
    show ∀ m, Option.Rel _ (Function.update s.pending env.msgId _ m)
      (Function.update s'.pending env'.msgId _ m)
    rw [← henv.msgId]
    exact Pointwise.update h.pending _ (.some henv)
  sendCount := h.sendCount
  divergences := h.divergences
  produced := h.produced

theorem seed (we : CausalEvent) {env : Envelope τ α} {env' : Envelope τ α'}
    (henv : env.Like M env') : (s.seed we env).Like M (s'.seed we env') :=
  ⟨h.recorded, (h.deliver henv).pending, h.sendCount, h.divergences,
    by simp [ReplayState.seed, h.produced]⟩

theorem consume (ev : CausalEvent) (m : Nat) (env : Envelope τ α) (env' : Envelope τ α') :
    (s.consume ev m env).Like M (s'.consume ev m env') :=
  ⟨h.recorded, Pointwise.update h.pending m .none, h.sendCount, h.divergences, h.produced⟩

omit h in
theorem complete : ∀ (log : List CausalEvent) {s : ReplayState τ α} {s' : ReplayState τ α'},
    s.Like M s' → (ReplayState.complete log s).Like M (ReplayState.complete log s')
  | [], _, _, h => h
  | e :: log, s, s', h => by
    rw [ReplayState.complete, ReplayState.complete, ← h.produced]
    split
    · exact complete log h
    · exact complete log (h.diverge _ _)

omit h in
/-- The seeding loop, with origins that are the same but for their payloads. -/
theorem seedOrigins {os : List (ActorId × Boxed τ α)} {os' : List (ActorId × Boxed τ α')}
    (ho : List.Forall₂ (fun o o' => o.1 = o'.1 ∧ o.2.Like M o'.2) os os') :
    ∀ (wes : List CausalEvent) (k : Nat) {s : ReplayState τ α} {s' : ReplayState τ α'},
      s.Like M s' →
        (ReplayState.seedOrigins os k wes s).Like M (ReplayState.seedOrigins os' k wes s')
  | [], _, _, _, h => h
  | we :: wes, k, s, s', h => by
    refine seedOrigins ho wes (k + 1) ?_
    have hget := Pointwise.getElem? ho k
    generalize os[k]? = o, os'[k]? = o' at hget
    unfold ReplayState.seedOrigin
    cases we.parsedMid with
    | none => exact h.diverge _ _
    | some m =>
      cases hget with
      | none => exact h.diverge _ _
      | some ho => exact h.seed we ⟨ho.2, rfl, rfl, rfl, rfl, ho.1⟩

end ReplayState.Like

/-! ## The calls of a handler -/

namespace ReplayDispatch

/-- Backends of the same actor in replays that are alike, and its stamps. -/
structure Like (M : τ → α → α' → Prop) (r : Stamps × ReplayDispatch τ α)
    (r' : Stamps × ReplayDispatch τ α') : Prop where
  stamps : r.1 = r'.1
  current : r.2.current = r'.2.current
  state : r.2.state.Like M r'.2.state

theorem nextMsgId_like {b : ReplayDispatch τ α} {b' : ReplayDispatch τ α'}
    (hcur : b.current = b'.current) (h : b.state.Like M b'.state) :
    b.nextMsgId.1 = b'.nextMsgId.1 ∧ b.nextMsgId.2.current = b'.nextMsgId.2.current ∧
      b.nextMsgId.2.state.Like M b'.nextMsgId.2.state := by
  unfold nextMsgId
  simp only [← hcur, ← h.sendCount, ← h.recorded]
  cases (b.state.recorded.emitsByActor b.current)[b.state.sendCount b.current + 1 - 1]?.bind
    fun e => e.parsedMid with
  | some m => exact ⟨rfl, rfl, rfl, h.pending, rfl, h.divergences, h.produced⟩
  | none =>
    exact ⟨rfl, rfl, rfl, h.pending, rfl, congrArg (· ++ [_]) h.divergences, h.produced⟩

theorem perform_like {a : Action (Addr τ) α} {a' : Action (Addr τ) α'} (ha : a.Like (Addr.Fits M) a')
    (id : ActorId) {c : Stamps} {b : ReplayDispatch τ α} {b' : ReplayDispatch τ α'}
    (hcur : b.current = b'.current) (h : b.state.Like M b'.state) :
    Like M (Context.perform id a c b) (Context.perform id a' c b') := by
  cases ha with
  | compute => exact ⟨rfl, hcur, h.verify _⟩
  | @send addr msg msg' hmsg =>
    obtain ⟨hid, hcur', hnext⟩ := nextMsgId_like hcur h
    let env := (c.bump id).envelope id b.nextMsgId.1 addr msg
    let env' := (c.bump id).envelope id b'.nextMsgId.1 addr msg'
    have henv : env.Like M env' := ⟨⟨rfl, hmsg⟩, rfl, rfl, hid, rfl, rfl⟩
    have hsent : ((b.nextMsgId.2.state.verify (emitEvent id (c.bump id).seq env)).deliver env).Like M
        ((b'.nextMsgId.2.state.verify (emitEvent id (c.bump id).seq env')).deliver env') := by
      rw [← emitEvent_like henv]
      exact (hnext.verify _).deliver henv
    exact ⟨rfl, hcur', hsent⟩

theorem performAll_like (id : ActorId) {as : List (Action (Addr τ) α)}
    {as' : List (Action (Addr τ) α')} (has : List.Forall₂ (Action.Like (Addr.Fits M)) as as') :
    ∀ {c : Stamps} {b : ReplayDispatch τ α} {b' : ReplayDispatch τ α'},
      b.current = b'.current → b.state.Like M b'.state →
        Like M (Context.performAll id as c b) (Context.performAll id as' c b') := by
  induction has with
  | nil => exact fun hcur h => ⟨rfl, hcur, h⟩
  | cons ha _ ih =>
    intro c b b' hcur h
    obtain ⟨hstamps, hcur', hstate⟩ := perform_like ha id (c := c) hcur h
    rw [Context.performAll, Context.performAll, hstamps]
    exact ih hcur' hstate

end ReplayDispatch

/-! ## The driver -/

/-- Two results of a stage that are the same error, or drivers alike. -/
inductive ResultLike (M : τ → α → α' → Prop) : Except Abort (Driver τ α σ) →
    Except Abort (Driver τ α' σ') → Prop where
  | error (e : Abort) : ResultLike M (.error e) (.error e)
  | ok {d : Driver τ α σ} {d' : Driver τ α' σ'} (h : d.Like M d') : ResultLike M (.ok d) (.ok d')

theorem ResultLike.bind {x : Except Abort (Driver τ α σ)} {x' : Except Abort (Driver τ α' σ')}
    {f : Driver τ α σ → Except Abort (Driver τ α σ)}
    {f' : Driver τ α' σ' → Except Abort (Driver τ α' σ')} (h : ResultLike M x x')
    (hf : ∀ {d d'}, d.Like M d' → ResultLike M (f d) (f' d')) :
    ResultLike M (x >>= f) (x' >>= f') := by
  cases h with
  | error e => exact .error e
  | ok h => exact hf h

variable [DecidableEq τ]

/-- Actors that answer alike make calls alike, and go on answering alike. -/
theorem TypedActor.Like.invoke {t : TypedActor τ α σ} {t' : TypedActor τ α' σ'} (h : t.Like M t')
    {msg : Option (Boxed τ α)} {msg' : Option (Boxed τ α')}
    (hmsg : Option.Rel (Boxed.Like M) msg msg') :
    Option.Rel (fun r r' => TypedActor.Like M ⟨t.actor, r.1⟩ ⟨t'.actor, r'.1⟩ ∧
      List.Forall₂ (Action.Like (Addr.Fits M)) r.2 r'.2)
      (Driver.invoke t msg) (Driver.invoke t' msg') := by
  obtain ⟨S, hactor, hstate⟩ := h
  cases hmsg with
  | none =>
    obtain ⟨hS, hcalls⟩ := hactor.started hstate
    exact .some ⟨⟨S, hactor, hS⟩, hcalls⟩
  | @some b b' hb =>
    unfold Driver.invoke
    simp only [← hb.typeId, ← hactor.msgType]
    split
    · rename_i htype
      obtain ⟨hS, hcalls⟩ := hactor.handle hstate (htype ▸ hb.val)
      exact .some ⟨⟨S, hactor, hS⟩, hcalls⟩
    · exact .none

namespace Driver.Like

variable {d : Driver τ α σ} {d' : Driver τ α' σ'}

theorem drive (h : d.Like M d') (dst : ActorId) {msg : Option (Boxed τ α)}
    {msg' : Option (Boxed τ α')} (hmsg : Option.Rel (Boxed.Like M) msg msg') :
    ResultLike M (d.drive dst msg) (d'.drive dst msg') := by
  have hactor := h.actors dst
  unfold Driver.drive
  generalize d.actors[dst]? = o, d'.actors[dst]? = o' at hactor
  cases hactor with
  | none => exact .error _
  | @some t t' ht =>
    have hinvoke := ht.invoke hmsg
    simp only
    generalize invoke t msg = r, invoke t' msg' = r' at hinvoke
    cases hinvoke with
    | none => exact .error _
    | @some r r' hr =>
      obtain ⟨hlike, hcalls⟩ := hr
      have hstate : (⟨d.state, dst⟩ : ReplayDispatch τ α).state.Like M
          (⟨d'.state, dst⟩ : ReplayDispatch τ α').state := h.state
      have hperform := ReplayDispatch.performAll_like dst hcalls (c := d.clocks dst) rfl hstate
      refine .ok ⟨Pointwise.insert h.actors dst hlike, ?_, ?_⟩
      · rw [h.clocks] at hperform ⊢
        simp only [hperform.stamps]
      · rw [← h.clocks]
        exact hperform.state

theorem startAll : ∀ (names : List ActorId) {d : Driver τ α σ} {d' : Driver τ α' σ'},
    d.Like M d' → ResultLike M (Driver.startAll names d) (Driver.startAll names d')
  | [], _, _, h => .ok h
  | name :: names, _, _, h => (h.drive name .none).bind fun h => startAll names h

omit [DecidableEq τ] in
theorem stampRecv (h : d.Like M d') (dst : ActorId) {env : Envelope τ α} {env' : Envelope τ α'}
    (henv : env.Like M env') : (d.stampRecv dst env).Like M (d'.stampRecv dst env') := by
  unfold Driver.stampRecv
  simp only [← h.clocks, ← receive_like henv, ← recvEvent_like henv]
  exact ⟨h.actors, rfl, h.state.verify _⟩

/-- **One turn of the recv loop.** -/
theorem recvStep (h : d.Like M d') (ev : CausalEvent) :
    ResultLike M (d.recvStep ev) (d'.recvStep ev) := by
  unfold Driver.recvStep
  split
  · exact .ok h
  cases ev.parsedMid with
  | none => exact .ok ⟨h.actors, h.clocks, h.state.diverge _ _⟩
  | some m =>
    have hpending := h.state.pending m
    simp only
    generalize d.state.pending m = o, d'.state.pending m = o' at hpending
    cases hpending with
    | none => exact .ok ⟨h.actors, h.clocks, h.state.diverge _ _⟩
    | @some env env' henv =>
      have hconsumed : Driver.Like M { d with state := d.state.consume ev m env }
          { d' with state := d'.state.consume ev m env' } :=
        ⟨h.actors, h.clocks, h.state.consume _ _ _ _⟩
      have hstamped := hconsumed.stampRecv ev.actor henv
      have hmem := Pointwise.mem_iff hstamped.actors ev.actor
      simp only
      split
      · rw [if_pos (mt hmem.mpr ‹_›)]
        exact .ok ⟨hstamped.actors, hstamped.clocks, hstamped.state.diverge _ _⟩
      · rename_i hin
        rw [if_neg fun hout => hin (mt hmem.mp hout)]
        exact hstamped.drive ev.actor (.some henv.msg)

theorem recvLoop : ∀ (timeline : List CausalEvent) {d : Driver τ α σ} {d' : Driver τ α' σ'},
    d.Like M d' → ResultLike M (Driver.recvLoop timeline d) (Driver.recvLoop timeline d')
  | [], _, _, h => .ok h
  | ev :: evs, _, _, h => (h.recvStep ev).bind fun h => recvLoop evs h

end Driver.Like

/-! ## The replay -/

variable {sys : ReplaySystem τ α σ} {sys' : ReplaySystem τ α' σ'}

omit [DecidableEq τ] in
theorem ReplaySystem.Like.seeded (h : sys.Like M sys') (log : List CausalEvent) :
    (sys.seeded log).Like M (sys'.seeded log) :=
  ⟨h.actors, rfl, ReplayState.Like.seedOrigins h.origins _ _
    ⟨rfl, fun _ => .none, rfl, rfl, rfl⟩⟩

theorem ReplaySystem.Like.reexecute (h : sys.Like M sys') (log timeline : List CausalEvent) :
    ResultLike M (sys.reexecute log timeline) (sys'.reexecute log timeline) := by
  unfold ReplaySystem.reexecute
  rw [Pointwise.keys_eq h.actors]
  refine (Driver.Like.startAll _ (h.seeded log)).bind fun h => ?_
  refine (Driver.Like.recvLoop timeline h).bind fun h => ?_
  exact .ok ⟨h.actors, h.clocks, .complete log h.state⟩

/-- **A replay is blind to payloads.**  Two systems under the same names, whose actors answer payloads
that stand for one another with the same calls on the context but for such payloads, and which are
given such origins, replay every log to the same result: the same error or panic, or the same
timeline and poset with the same divergences in the same order. -/
theorem replay_blind (h : sys.Like M sys') (log : List CausalEvent) :
    sys.replay log = sys'.replay log := by
  unfold ReplaySystem.replay ReplaySystem.replayRun
  cases replayLog log with
  | error e => rfl
  | ok r =>
    have hrun := h.reexecute log r.timeline
    simp only
    generalize sys.reexecute log r.timeline = x, sys'.reexecute log r.timeline = x' at hrun
    cases hrun with
    | error e => rfl
    | ok h =>
      show Except.ok _ = Except.ok _
      rw [h.state.divergences]

end Steps

/-! ### Systems built alike -/

section Build

variable {M : τ → α → α' → Prop}

theorem ReplaySystem.Like.new : (ReplaySystem.new : ReplaySystem τ α σ).Like M
    (ReplaySystem.new : ReplaySystem τ α' σ') := ⟨fun _ => .none, .nil⟩

variable {sys : ReplaySystem τ α σ} {sys' : ReplaySystem τ α' σ'} (h : sys.Like M sys')
include h

theorem ReplaySystem.Like.spawn (name : ActorId) {t : TypedActor τ α σ} {t' : TypedActor τ α' σ'}
    (ht : t.Like M t') : (sys.spawn name t).Like M (sys'.spawn name t') where
  actors := Pointwise.insert h.actors name ht
  origins := h.origins

theorem ReplaySystem.Like.origin (addr : Addr τ) {msg : α} {msg' : α'}
    (hmsg : M addr.msgType msg msg') : (sys.origin addr msg).Like M (sys'.origin addr msg') where
  actors := h.actors
  origins := List.rel_append h.origins (.cons ⟨rfl, rfl, hmsg⟩ .nil)

end Build

/-- A relay that passes every number on to the sink, changed by `f`. -/
def changing (f : Nat → Nat) : Actor (Addr Unit) Unit Nat Unit where
  msgType := ()
  started s := (s, [])
  handle s x := (s, [.send ⟨"sink", ()⟩ (f x)])

def changingSystem (f : Nat → Nat) : ReplaySystem Unit Nat Unit :=
  ((ReplaySystem.new.spawn "sink" ⟨sink, ()⟩).spawn "relay" ⟨changing f, ()⟩).origin ⟨"relay", ()⟩ 1

/-- A relay that triples what it should double passes for the one that doubles it. -/
theorem replay_blind_tripled : ∃ out, (changingSystem (2 * ·)).replay (relayLog "sink") = .ok out ∧
    (changingSystem (3 * ·)).replay (relayLog "sink") = .ok out ∧ out.divergences = [] := by
  let M : Unit → Nat → Nat → Prop := fun _ _ _ => True
  have hsink : TypedActor.Like M ⟨sink, ()⟩ ⟨sink, ()⟩ :=
    ⟨Eq, ⟨rfl, fun _ => ⟨rfl, .nil⟩, fun _ _ => ⟨rfl, .cons .compute .nil⟩⟩, rfl⟩
  have hrelay : TypedActor.Like M ⟨changing (2 * ·), ()⟩ ⟨changing (3 * ·), ()⟩ :=
    ⟨Eq, ⟨rfl, fun _ => ⟨rfl, .nil⟩, fun _ _ => ⟨rfl, .cons (.send trivial) .nil⟩⟩, rfl⟩
  have hlike : (changingSystem (2 * ·)).Like M (changingSystem (3 * ·)) :=
    ((ReplaySystem.Like.new.spawn "sink" hsink).spawn "relay" hrelay).origin _ trivial
  obtain ⟨out, hout, hnone⟩ :=
    exists_faithful (changingSystem (2 * ·)) (relayLog "sink") (by decide)
  exact ⟨out, hout, (replay_blind hlike _).symm.trans hout, hnone⟩

end Lichtung
