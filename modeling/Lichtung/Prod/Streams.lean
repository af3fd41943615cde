import Lichtung.Prod.Channel
import Lichtung.Prod.Influence
import Lichtung.Prod.Quiescence

/-!
# Actors without fan-in

What a run leaves to the scheduler is the order in which messages of different senders reach one
mailbox.  An actor that only one other actor sends to, itself such an actor, and so on back to the
origin, has no such choice: what it receives is a stream that does not depend on the run, and so is
its world-line, up to the msg_ids.

Principal results: `Line.Path.finish_eq` (a line is a function of what it received),
`Performed.channel` (what is received is what was sent first) and `world_lines_determined`.
-/

namespace Lichtung

variable {ι τ α σ : Type}

/-! ## Without msg_ids -/

/-- The envelope without its msg_id. -/
def Envelope.unnumbered (env : Envelope τ α) : Envelope τ α := { env with msgId := 0 }

/-- The event without its msg_id. -/
def CausalEvent.unnumbered (e : CausalEvent) : CausalEvent := { e with msgId := none }

namespace Prod

namespace Line

def unnumbered (x : Line ι τ α σ) : Line ι τ α σ :=
  { x with
    events := x.events.map (·.unnumbered)
    sent := x.sent.map (·.unnumbered)
    received := x.received.map (·.unnumbered) }

/-! ## An actor on its own -/

variable (sys : Topology ι τ α σ) (i : ι)

/-- One call, with `rest` still to make. -/
def call (rest : List (Action ι α)) (x : Line ι τ α σ) : Action ι α → Line ι τ α σ
  | .compute =>
    let c := x.stamps.bump (sys.name i)
    { x with
      events := x.events ++
        [(computeEvent (sys.name i) c.seq c.clock c.lamport.val).unnumbered]
      stamps := c
      rest := rest }
  | .send addr msg =>
    let c := x.stamps.bump (sys.name i)
    let env := c.envelope (sys.name i) 0 (sys.addr addr) msg
    { x with
      events := x.events ++ [(emitEvent (sys.name i) c.seq env).unnumbered]
      sent := x.sent ++ [env]
      stamps := c
      rest := rest }

/-- The given calls, in order. -/
def callAll : List (Action ι α) → Line ι τ α σ → Line ι τ α σ
  | [], x => { x with rest := [] }
  | a :: rest, x => callAll rest (call sys i rest x a)

/-- The calls that are left. -/
def finish (x : Line ι τ α σ) : Line ι τ α σ := callAll sys i x.rest x

/-- A receipt, before the calls of the handler. -/
def receive (x : Line ι τ α σ) (env : Envelope τ α) : Line ι τ α σ :=
  let c := x.stamps.receive (sys.name i) env
  { events := x.events ++
      [(recvEvent (sys.name i) c.seq c.clock c.lamport.val env).unnumbered]
    sent := x.sent
    received := x.received ++ [env]
    state := ((sys.actor i).handle x.state env.msg.val).1
    stamps := c
    rest := ((sys.actor i).handle x.state env.msg.val).2 }

/-- The whole line of an actor that receives the given envelopes. -/
def respond (envs : List (Envelope τ α)) : Line ι τ α σ :=
  envs.foldl (fun x env => finish sys i (receive sys i x env)) (finish sys i (start sys i))

variable {sys i} {x y : Line ι τ α σ}

theorem finish_of_rest (h : x.rest = []) : finish sys i x = x := by
  rw [finish, h]
  cases x
  cases h
  rfl

@[simp] theorem unnumbered_rest : x.unnumbered.rest = x.rest := rfl

theorem respond_snoc (envs : List (Envelope τ α)) (env : Envelope τ α) :
    respond sys i (envs ++ [env]) = finish sys i (receive sys i (respond sys i envs) env) := by
  rw [respond, List.foldl_append]
  rfl

/-- A recorded call is that call on its own, a recorded receipt that receipt. -/
theorem Step.finish_eq (h : Step sys i x y) :
    y.received = x.received ∧ finish sys i y.unnumbered = finish sys i x.unnumbered ∨
      ∃ env, x.rest = [] ∧ y.received = x.received ++ [env] ∧
        y.unnumbered = receive sys i x.unnumbered env.unnumbered := by
  cases h with
  | compute rest c hrest hc =>
    subst hc
    refine .inl ⟨rfl, ?_⟩
    rw [finish, finish, unnumbered_rest, unnumbered_rest, hrest]
    simp [callAll, call, unnumbered]
  | send addr msg rest c m env hrest hc henv =>
    subst hc henv
    refine .inl ⟨rfl, ?_⟩
    rw [finish, finish, unnumbered_rest, unnumbered_rest, hrest]
    simp [callAll, call, unnumbered, CausalEvent.unnumbered, emitEvent, Stamps.envelope,
      Envelope.unnumbered]
  | recv env c hrest htype hc =>
    subst hc
    refine .inr ⟨env, hrest, rfl, ?_⟩
    simp only [receive, unnumbered, List.map_append, List.map_cons, List.map_nil]
    rfl

/-- **A line is a function of what it received**, up to the msg_ids. -/
theorem Path.finish_eq (h : Path sys i (start sys i) x) :
    finish sys i x.unnumbered = respond sys i (x.received.map (·.unnumbered)) := by
  induction h with
  | refl => rfl
  | @tail x y _ hs ih =>
    rcases hs.finish_eq with ⟨hrecv, heq⟩ | ⟨env, hrest, hrecv, heq⟩
    · rw [heq, hrecv, ih]
    · rw [hrecv, List.map_append, List.map_singleton, respond_snoc, ← ih, heq,
        finish_of_rest (x := x.unnumbered) hrest]

/-! ## Longer inputs, longer lines -/

theorem Grows.refl (x : Line ι τ α σ) : x.Grows x :=
  ⟨List.prefix_rfl, List.prefix_rfl, List.prefix_rfl⟩

theorem Grows.trans {z : Line ι τ α σ} (h : x.Grows y) (h' : y.Grows z) : x.Grows z :=
  ⟨h.events.trans h'.events, h.sent.trans h'.sent, h.received.trans h'.received⟩

theorem call_grows (rest : List (Action ι α)) (x : Line ι τ α σ) (a : Action ι α) :
    x.Grows (call sys i rest x a) := by
  cases a with
  | compute => exact ⟨List.prefix_append .., List.prefix_rfl, List.prefix_rfl⟩
  | send => exact ⟨List.prefix_append .., List.prefix_append .., List.prefix_rfl⟩

theorem callAll_grows : ∀ (calls : List (Action ι α)) (x : Line ι τ α σ),
    x.Grows (callAll sys i calls x)
  | [], _ => ⟨List.prefix_rfl, List.prefix_rfl, List.prefix_rfl⟩
  | a :: rest, x => (call_grows rest x a).trans (callAll_grows rest _)

theorem respond_grows {us vs : List (Envelope τ α)} (h : us <+: vs) :
    (respond sys i us).Grows (respond sys i vs) := by
  obtain ⟨ws, rfl⟩ := h
  induction ws using List.reverseRecOn with
  | nil => rw [List.append_nil]; exact .refl _
  | append_singleton ws env ih =>
    rw [← List.append_assoc, respond_snoc]
    have hreceive : (respond sys i (us ++ ws)).Grows
        (receive sys i (respond sys i (us ++ ws)) env) :=
      ⟨List.prefix_append .., List.prefix_rfl, List.prefix_append ..⟩
    exact ih.trans (hreceive.trans (callAll_grows _ _))

/-- What is recorded of a line is the beginning of what it does on its own. -/
theorem Path.tracks (h : Path sys i (start sys i) x) :
    x.unnumbered.Grows (respond sys i (x.received.map (·.unnumbered))) :=
  h.finish_eq ▸ callAll_grows _ _

/-- It is all of it once the calls are made. -/
theorem Path.settled (h : Path sys i (start sys i) x) (hrest : x.rest = []) :
    x.unnumbered = respond sys i (x.received.map (·.unnumbered)) := by
  rw [← h.finish_eq, finish_of_rest (x := x.unnumbered) hrest]

theorem callAll_sent : ∀ {calls : List (Action ι α)} {x : Line ι τ α σ},
    (∀ a ∈ calls, a = .compute) → (callAll sys i calls x).sent = x.sent
  | [], _, _ => rfl
  | a :: rest, x, h => by
    obtain rfl := h a (List.mem_cons_self ..)
    exact callAll_sent (x := call sys i rest x .compute) fun a ha =>
      h a (List.mem_cons_of_mem _ ha)

/-- The sends are made once only computes are left. -/
theorem Path.sent_eq (h : Path sys i (start sys i) x) (hrest : ∀ a ∈ x.rest, a = .compute) :
    x.sent.map (·.unnumbered) = (respond sys i (x.received.map (·.unnumbered))).sent := by
  have hsent : (finish sys i x.unnumbered).sent = x.unnumbered.sent := callAll_sent hrest
  rw [← h.finish_eq, hsent]
  rfl

/-! ## Messages and states -/

/-- The messages among the calls of a handler. -/
def sends (sys : Topology ι τ α σ) (calls : List (Action ι α)) : List (ActorId × α) :=
  calls.filterMap fun
    | .send addr msg => some (sys.name addr, msg)
    | .compute => none

/-- The messages a line sent. -/
def messages (x : Line ι τ α σ) : List (ActorId × α) :=
  x.sent.map fun env => (env.dst, env.msg.val)

/-- What an actor in the given state sends while it handles some messages. -/
def replies (sys : Topology ι τ α σ) (i : ι) : σ → List α → List (ActorId × α)
  | _, [] => []
  | st, msg :: msgs => sends sys ((sys.actor i).handle st msg).2 ++
      replies sys i ((sys.actor i).handle st msg).1 msgs

/-- The state it is in afterwards. -/
def after (sys : Topology ι τ α σ) (i : ι) (st : σ) (msgs : List α) : σ :=
  msgs.foldl (fun st msg => ((sys.actor i).handle st msg).1) st

theorem after_snoc (msgs : List α) (msg : α) (st : σ) : after sys i st (msgs ++ [msg]) =
    ((sys.actor i).handle (after sys i st msgs) msg).1 := by
  rw [after, List.foldl_append]
  rfl

theorem replies_snoc (msgs : List α) (msg : α) : ∀ st : σ, replies sys i st (msgs ++ [msg]) =
    replies sys i st msgs ++ sends sys ((sys.actor i).handle (after sys i st msgs) msg).2 := by
  induction msgs with
  | nil => intro st; simp [replies, after]
  | cons m msgs ih =>
    intro st
    rw [List.cons_append, replies, replies, ih, List.append_assoc]
    rfl

variable (sys i) in
theorem callAll_messages : ∀ (calls : List (Action ι α)) (x : Line ι τ α σ),
    (callAll sys i calls x).messages = x.messages ++ sends sys calls ∧
      (callAll sys i calls x).state = x.state
  | [], x => ⟨(List.append_nil _).symm, rfl⟩
  | .compute :: rest, x => callAll_messages rest (call sys i rest x .compute)
  | .send addr msg :: rest, x => by
    obtain ⟨hmessages, hstate⟩ := callAll_messages rest (call sys i rest x (.send addr msg))
    refine ⟨?_, hstate⟩
    rw [callAll, hmessages]
    simp [messages, call, sends, Stamps.envelope, Topology.addr]

/-- What an actor sends, and the state it comes to, is a function of the messages it receives. -/
theorem respond_messages (us : List (Envelope τ α)) :
    (respond sys i us).messages = sends sys ((sys.actor i).started (sys.init i)).2 ++
        replies sys i ((sys.actor i).started (sys.init i)).1 (us.map (·.msg.val)) ∧
      (respond sys i us).state =
        after sys i ((sys.actor i).started (sys.init i)).1 (us.map (·.msg.val)) := by
  induction us using List.reverseRecOn with
  | nil =>
    obtain ⟨hmessages, hstate⟩ := callAll_messages sys i
      (start sys i).rest (start sys i)
    exact ⟨hmessages.trans (by rw [List.map_nil, replies, List.append_nil]; rfl), hstate⟩
  | append_singleton us env ih =>
    obtain ⟨hmessages, hstate⟩ := callAll_messages sys i
      (receive sys i (respond sys i us) env).rest (receive sys i (respond sys i us) env)
    have hsent : (receive sys i (respond sys i us) env).messages = (respond sys i us).messages := rfl
    rw [respond_snoc, finish, hmessages, hstate, hsent, ih.1, List.map_append, List.map_singleton,
      replies_snoc, ← ih.2, List.append_assoc]
    refine ⟨rfl, ?_⟩
    rw [after_snoc, ← ih.2]
    rfl

/-! ## What the events of a line show -/

/-- The messages of a line, as its events name them. -/
structure Shown (sys : Topology ι τ α σ) (i : ι) (x : Line ι τ α σ) : Prop where
  sent : (x.events.filter (·.op = .emit)).map (fun e => (e.dst, e.msgId)) =
    x.sent.map fun env => (some env.dst, mid env.msgId)
  received : (x.events.filter (·.op = .recv)).map (fun e => (e.src, e.msgId)) =
    x.received.map fun env => (some env.src, mid env.msgId)
  signed : ∀ env ∈ x.sent, env.src = sys.name i

theorem Path.shown (h : Path sys i (start sys i) x) : Shown sys i x := by
  induction h with
  | refl => exact ⟨rfl, rfl, fun env henv => by cases henv⟩
  | tail _ hs ih =>
    cases hs with
    | compute rest c hrest hc =>
      exact ⟨by simpa [List.filter_append] using ih.sent,
        by simpa [List.filter_append] using ih.received, ih.signed⟩
    | send addr msg rest c m env hrest hc henv =>
      refine ⟨?_, by simpa [List.filter_append] using ih.received, fun e he => ?_⟩
      · simp only [List.filter_append, List.map_append, ih.sent]
        rfl
      · rcases List.mem_append.mp he with he | he
        · exact ih.signed e he
        · obtain rfl := List.mem_singleton.mp he
          rw [henv]
          rfl
    | recv env c hrest htype hc =>
      refine ⟨by simpa [List.filter_append] using ih.sent, ?_, ih.signed⟩
      simp only [List.filter_append, List.map_append, ih.received]
      rfl

end Line

/-! ## Channels and lines -/

section Channels

variable {sys : Topology ι τ α σ} {s : Config ι τ α σ} {L : ι → Line ι τ α σ}

/-- A selection by one component of a pair, read off the other. -/
theorem filter_fst_map_snd {β γ δ : Type} [DecidableEq γ] (l : List β) (f : β → γ) (g : β → δ)
    (c : γ) : ((l.map fun x => (f x, g x)).filter (·.1 = c)).map (·.2) =
      (l.filter fun x => f x = c).map g := by
  rw [List.filter_map, List.map_map]
  rfl

/-- The events of one actor and op with one more property, one selection after the other. -/
theorem filter_channel (events : List CausalEvent) (op : Op) (a : ActorId) (p : CausalEvent → Prop)
    [DecidablePred p] : events.filter (fun e => e.op = op ∧ e.actor = a ∧ p e) =
      ((events.filter (·.actor = a)).filter (·.op = op)).filter (p ·) := by
  rw [List.filter_filter, List.filter_filter]
  refine List.filter_congr fun e _ => ?_
  rw [Bool.eq_iff_iff]
  simp only [decide_eq_true_eq, Bool.and_eq_true]
  tauto

/-- What the log records as sent from `j` to `i` is what the line of `j` sent there. -/
theorem Played.sentTo_eq (h : Played sys s L) (j i : ι) :
    sentTo s.events (sys.name j) (sys.name i) =
      ((L j).sent.filter (·.dst = sys.name i)).map fun env => mid env.msgId := by
  have hshown := (Line.Path.shown (h.path j)).sent
  have hpairs := filter_fst_map_snd (L j).sent (fun env => some env.dst)
    (fun env => mid env.msgId) (some (sys.name i))
  rw [← hshown, filter_fst_map_snd, h.events j] at hpairs
  simp only [Option.some.injEq] at hpairs
  rw [← hpairs, sentTo, filter_channel s.events .emit (sys.name j) (·.dst = some (sys.name i))]

/-- What the log records as received by `i` from `j` is what the line of `i` received from there. -/
theorem Played.receivedFrom_eq (h : Played sys s L) (j i : ι) :
    receivedFrom s.events (sys.name j) (sys.name i) =
      ((L i).received.filter (·.src = sys.name j)).map fun env => mid env.msgId := by
  have hshown := (Line.Path.shown (h.path i)).received
  have hpairs := filter_fst_map_snd (L i).received (fun env => some env.src)
    (fun env => mid env.msgId) (some (sys.name j))
  rw [← hshown, filter_fst_map_snd, h.events i] at hpairs
  simp only [Option.some.injEq] at hpairs
  rw [← hpairs, receivedFrom, filter_channel s.events .recv (sys.name i)
    (·.src = some (sys.name j))]

/-- A received envelope has its recv on the line. -/
theorem Played.recv_of_received (h : Played sys s L) {i : ι} {env : Envelope τ α}
    (henv : env ∈ (L i).received) : ∃ r ∈ s.events, r.op = .recv ∧ r.actor = sys.name i ∧
      r.msgId = mid env.msgId := by
  have hmem : (some env.src, mid env.msgId) ∈
      (L i).received.map fun env => (some env.src, mid env.msgId) := List.mem_map_of_mem henv
  rw [← (Line.Path.shown (h.path i)).received] at hmem
  obtain ⟨r, hr, heq⟩ := List.mem_map.mp hmem
  obtain ⟨hr, hop⟩ := List.mem_filter.mp hr
  rw [h.events i] at hr
  obtain ⟨hr, hactor⟩ := List.mem_filter.mp hr
  exact ⟨r, hr, by simpa using hop, by simpa using hactor, (Prod.mk.inj heq).2⟩

/-- A recorded recv of `i` is of an envelope its line received. -/
theorem Played.received_of_recv (h : Played sys s L) {i : ι} {r : CausalEvent}
    (hr : r ∈ s.events) (hop : r.op = .recv) (hactor : r.actor = sys.name i) :
    ∃ env ∈ (L i).received, r.msgId = mid env.msgId ∧ r.src = some env.src := by
  have hmem : (r.src, r.msgId) ∈
      ((L i).events.filter (·.op = .recv)).map fun e => (e.src, e.msgId) := by
    refine List.mem_map_of_mem (List.mem_filter.mpr ⟨?_, by simpa using hop⟩)
    rw [h.events i]
    exact List.mem_filter.mpr ⟨hr, by simpa using hactor⟩
  rw [(Line.Path.shown (h.path i)).received] at hmem
  obtain ⟨env, henv, heq⟩ := List.mem_map.mp hmem
  exact ⟨env, henv, (Prod.mk.inj heq).2.symm, (Prod.mk.inj heq).1.symm⟩

end Channels

/-! ## Sole senders -/

section Lists

variable {β γ : Type}

/-- A list of members of another, in the order of their images, begins it. -/
theorem prefix_of_map_prefix {f : β → γ} : ∀ {xs ys : List β}, (ys.map f).Nodup →
    (∀ x ∈ xs, x ∈ ys) → xs.map f <+: ys.map f → xs <+: ys
  | [], _, _, _, _ => List.nil_prefix
  | x :: xs, [], _, hmem, _ => by cases hmem x (List.mem_cons_self ..)
  | x :: xs, y :: ys, hnd, hmem, hp => by
    obtain ⟨hxy, hrest⟩ := List.cons_prefix_cons.mp hp
    have hinj := List.inj_on_of_nodup_map hnd
    obtain rfl : x = y := hinj (hmem x (List.mem_cons_self ..)) (List.mem_cons_self ..) hxy
    obtain ⟨hnot, hnd'⟩ := List.nodup_cons.mp hnd
    refine List.cons_prefix_cons.mpr ⟨rfl, prefix_of_map_prefix hnd' (fun z hz => ?_) hrest⟩
    rcases List.mem_cons.mp (hmem z (List.mem_cons_of_mem x hz)) with heq | hin
    · exact absurd (heq ▸ hrest.subset (List.mem_map_of_mem hz)) hnot
    · exact hin

/-- A beginning that has all the members is the whole. -/
theorem eq_of_prefix_of_subset {xs ys : List β} (hp : xs <+: ys) (hnd : ys.Nodup)
    (hsub : ys ⊆ xs) : xs = ys :=
  hp.eq_of_length_le (hnd.subperm hsub).length_le

end Lists

variable [Fintype ι] {sys : Topology ι τ α σ} {G : ι → ι → Prop} {ok : ι → σ → Prop}
  {s : Config ι τ α σ} {L : ι → Line ι τ α σ} {ls : List (Label ι α)}

/-- The sender of a received envelope recorded its emit. -/
theorem Performed.emit_of_received (h : Performed sys ls s L) (ha : Account sys s)
    {i : ι} {env : Envelope τ α} (henv : env ∈ (L i).received) : env.dst = sys.name i ∧
      ((∃ j, env ∈ (L j).sent ∧ ∃ e ∈ s.events, e.actor = sys.name j ∧ e.op = .emit ∧
          e.dst = some (sys.name i)) ∨
        FromOrigin sys ls env ∧ emitEvent "world" 1 env ∈ s.events) := by
  obtain ⟨r, hr, hrop, hractor, hrmid⟩ := h.played.recv_of_received henv
  have hdst : ∀ {a seq}, emitEvent a seq env ∈ s.events → env.dst = sys.name i := by
    intro a seq he
    have hmsg : MessageOrder (emitEvent a seq env) r := ⟨rfl, hrop, _, rfl, hrmid⟩
    rw [← hractor]
    exact Option.some.inj (ha.dst_of_message he hr hmsg)
  rcases h.received i env henv with ⟨j, hj⟩ | ⟨horigin, hmem⟩
  · obtain ⟨seq, he⟩ := (Line.Path.consistent (h.played.path j)).emitted env hj
    have he := (h.played.mem_events.mp he).1
    have hto := hdst he
    exact ⟨hto, .inl ⟨j, hj, _, he, rfl, rfl, congrArg some hto⟩⟩
  · exact ⟨hdst hmem, .inr ⟨horigin, hmem⟩⟩

variable [DecidableEq ι] [DecidableEq τ]

omit [Fintype ι] [DecidableEq ι] [DecidableEq τ] in
theorem FullyReceived.recv_of_emit {events : List CausalEvent} (h : FullyReceived events)
    {e : CausalEvent} (he : e ∈ events) (hop : e.op = .emit) :
    ∃ r ∈ events, r.op = .recv ∧ messageKey r = messageKey e := by
  have hpos : 0 < events.countP fun r => r.op = .recv ∧ messageKey r = messageKey e := by
    rw [h.emits e he hop]
    exact Nat.one_pos
  obtain ⟨r, hr, hkey⟩ := List.countP_pos_iff.mp hpos
  exact ⟨r, hr, of_decide_eq_true hkey⟩

omit [DecidableEq ι] [DecidableEq τ] in
/-- An envelope received from an actor was sent by it, to the receiver. -/
theorem Performed.sent_of_received (hn : Named sys) (h : Performed sys ls s L) (ha : Account sys s)
    {i j : ι} {env : Envelope τ α} (henv : env ∈ (L i).received) (hsrc : env.src = sys.name j) :
    env ∈ (L j).sent.filter (·.dst = sys.name i) := by
  obtain ⟨hdst, ⟨k, hk, -⟩ | ⟨⟨m, addr, msg, hl, rfl⟩, -⟩⟩ := h.emit_of_received ha henv
  · have hsigned := (Line.Path.shown (h.played.path k)).signed env hk
    obtain rfl := hn.injective (hsigned.symm.trans hsrc)
    exact List.mem_filter.mpr ⟨hk, by simpa using hdst⟩
  · exact absurd hsrc.symm (hn.not_world j)

/-- **What one actor received from another is what that one sent it first**, in order; all of it
once every recorded emit has its recv. -/
theorem Performed.channel (hn : Named sys) {pre : List (Label ι α)} (h : Run sys pre s)
    (hL : Performed sys ls s L) (i j : ι) : (L i).received.filter (·.src = sys.name j) <+:
        (L j).sent.filter (·.dst = sys.name i) ∧
      (FullyReceived s.events → (L i).received.filter (·.src = sys.name j) =
        (L j).sent.filter (·.dst = sys.name i)) := by
  have hacc := h.account hn
  have hmem : ∀ env ∈ (L i).received.filter (·.src = sys.name j),
      env ∈ (L j).sent.filter (·.dst = sys.name i) := fun env henv => by
    obtain ⟨henv, hsrc⟩ := List.mem_filter.mp henv
    exact hL.sent_of_received hn hacc henv (by simpa using hsrc)
  have hnd : (((L j).sent.filter (·.dst = sys.name i)).map (·.msgId)).Nodup :=
    (List.filter_sublist.map _).nodup (hL.played.sent_nodup hacc.issued j)
  have hmids : ((L j).sent.filter (·.dst = sys.name i)).map (fun env => mid env.msgId) =
      (((L j).sent.filter (·.dst = sys.name i)).map (·.msgId)).map mid := by
    rw [List.map_map]
    rfl
  have hbegun : (L i).received.filter (·.src = sys.name j) <+:
      (L j).sent.filter (·.dst = sys.name i) := by
    refine prefix_of_map_prefix (hmids ▸ hnd.map fun _ _ h => mid_inj.mp h) hmem ?_
    obtain ⟨rest, hrest, -⟩ := h.fifo hn j i
    rw [← hL.played.receivedFrom_eq j i, ← hL.played.sentTo_eq]
    exact ⟨rest, hrest.symm⟩
  refine ⟨hbegun, fun hfull => eq_of_prefix_of_subset hbegun hnd.of_map fun env henv => ?_⟩
  obtain ⟨hin, hto⟩ := List.mem_filter.mp henv
  have hto : env.dst = sys.name i := by simpa using hto
  obtain ⟨seq, he⟩ := (Line.Path.consistent (hL.played.path j)).emitted env hin
  have he := (hL.played.mem_events.mp he).1
  -- the recv of the emit is of an envelope with its msg_id
  obtain ⟨r, hr, hrop, hkey⟩ := hfull.recv_of_emit he rfl
  have hrdst : r.dst = some (sys.name i) :=
    (Prod.mk.inj (Prod.mk.inj hkey).2).2.trans (congrArg some hto)
  have hractor : r.actor = sys.name i :=
    Option.some.inj (((hacc.written r hr).receiver hrop).symm.trans hrdst)
  obtain ⟨env', henv', hmid', hsrc'⟩ := hL.played.received_of_recv hr hrop hractor
  have hsrc : env'.src = sys.name j := by
    have hsigned := (Line.Path.shown (hL.played.path j)).signed env hin
    have hrsrc := (Prod.mk.inj (Prod.mk.inj hkey).2).1
    exact (Option.some.inj (hsrc'.symm.trans hrsrc)).trans hsigned
  have hin' : env' ∈ (L i).received.filter (·.src = sys.name j) :=
    List.mem_filter.mpr ⟨henv', by simpa using hsrc⟩
  have hsame : env'.msgId = env.msgId := mid_inj.mp (hmid'.symm.trans (Prod.mk.inj hkey).1)
  obtain rfl : env' = env := List.inj_on_of_nodup_map hnd (hmem env' hin') henv hsame
  exact hin'

/-- An actor that only `j` can send to receives from `j` alone. -/
theorem Performed.src_of_sole (hn : Named sys) (hw : Wired sys G ok) (h : Run sys ls s)
    (hL : Performed sys ls s L) {i j : ι} (honly : ∀ k, G k i → k = j)
    (hno : ∀ msg, Label.sendExternal i msg ∉ ls) :
    (L i).received.filter (·.src = sys.name j) = (L i).received := by
  have hacc := h.account hn
  obtain ⟨-, hsent⟩ := h.wired hn hw
  refine List.filter_eq_self.mpr fun env henv => ?_
  obtain ⟨hdst, ⟨k, hk, e, he, hactor, hop, hto⟩ | ⟨⟨m, addr, msg, hl, rfl⟩, -⟩⟩ :=
    hL.emit_of_received hacc henv
  · obtain ⟨i', hi', hki⟩ := hsent k e he hactor hop
    obtain rfl := hn.injective (Option.some.inj (hto.symm.trans hi'))
    obtain rfl := honly k hki
    simpa using (Line.Path.shown (hL.played.path k)).signed env hk
  · obtain rfl := hn.injective hdst
    exact absurd hl (hno msg)

/-! ## Runs that have ended -/

/-- A dropped task waited, or was never polled; after the join all are dropped. -/
structure Ended (s : Config ι τ α σ) : Prop where
  pc : ∀ i, (s.tasks i).dropped = true → (s.tasks i).pc = .spawned ∨ (s.tasks i).pc = .waiting
  joined : s.runner = .done → ∀ i, (s.tasks i).dropped = true

variable {s' : Config ι τ α σ}

omit [Fintype ι] [DecidableEq τ] in
/-- A step of a live task. -/
theorem Ended.task (h : Ended s) {i : ι} {t : Task ι τ α σ} (hd : (s.tasks i).dropped = false)
    (htasks : s'.tasks = Function.update s.tasks i t) (ht : t.dropped = (s.tasks i).dropped)
    (hr : s'.runner = .done → s.runner = .done) : Ended s' where
  pc := by
    rw [htasks]
    exact (Function.forall_update_iff s.tasks fun _ t => t.dropped = true →
      t.pc = .spawned ∨ t.pc = .waiting).mpr
        ⟨fun h' => (by rw [ht, hd] at h'; cases h'), fun j _ => h.pc j⟩
  joined := by
    intro hdone
    have := h.joined (hr hdone) i
    rw [hd] at this
    cases this

omit [Fintype ι] [DecidableEq ι] [DecidableEq τ] in
theorem Ended.frame (h : Ended s) (htasks : s'.tasks = s.tasks)
    (hr : s'.runner = .done → ∀ i, (s.tasks i).dropped = true) : Ended s' :=
  ⟨by rw [htasks]; exact h.pc, by rw [htasks]; exact hr⟩

omit [Fintype ι] in
theorem Ended.step {l : Label ι α} (h : Ended s) (hl : l.quiet) (hs : Step sys s l s') :
    Ended s' := by
  have hnotify : s.notifyOne.runner = .done → s.runner = .done := by
    unfold Config.notifyOne
    split
    · exact fun hr => by cases hr
    · exact id
  cases hs with
  | @start i hd | @compute i _ _ hd | @number i _ _ _ _ hd | @startedDone i hd | @handled i hd
  | @emit i _ _ _ _ _ hd | @count i _ _ _ _ hd | @deliver i _ _ _ _ hd | @bounce i _ _ _ _ hd
  | @undo i _ _ _ _ hd | @dequeue i _ _ hd | @receive i _ hd => exact h.task hd rfl rfl id
  | @wake i _ _ _ _ hd | @notify i hd =>
    exact h.task hd (s.notifyOne_setPc_tasks i _) rfl hnotify
  | panic => exact absurd hl id
  | @abort i hr =>
    refine ⟨fun j hj => ?_, fun hdone => ?_⟩
    · by_cases hij : j = i
      · subst hij
        simp only [Config.setTask, Function.update_self] at hj ⊢
        exact h.pc j hj
      · simp only [Config.setTask, Function.update_of_ne hij] at hj ⊢
        exact h.pc j hj
    · have hdone : s.runner = .done := hdone
      rw [hr] at hdone
      cases hdone
  | @cancel i ha hd hpc =>
    refine ⟨fun j hj => ?_, fun hdone => ?_⟩
    · by_cases hij : j = i
      · subst hij
        simpa [Config.drop, Config.setTask] using hpc
      · simp only [Config.drop, Config.setTask, Function.update_of_ne hij] at hj ⊢
        exact h.pc j hj
    · have := h.joined hdone i
      rw [hd] at this
      cases this
  | sendExternal | extRecord | extCount | extDeliver | extLost => exact h.frame rfl h.joined
  | join _ hall => exact h.frame rfl fun _ => hall
  | call | exit | again | permit | park => exact h.frame rfl fun hdone => by cases hdone

/-- Once the wait loop of a run without a panic is left, everything sent is received. -/
structure Finished (sys : Topology ι τ α σ) (s : Config ι τ α σ) : Prop where
  sound : Sound sys s
  silent : ∀ i, (s.tasks i).pc.silent
  ended : Ended s
  still : Intact s ∧ ¬ s.runner.left ∨ Still sys s

theorem Finished.step {l : Label ι α} (hsil : SilentStart sys) (h : Finished sys s) (hl : l.quiet)
    (hs : Step sys s l s') : Finished sys s' := by
  refine ⟨h.sound.step hs, silent_step hsil h.sound h.silent hs, h.ended.step hl hs, ?_⟩
  rcases h.still with ⟨hint, hr⟩ | hstill
  · have hint' := hint.step h.sound.addressed hr hl hs
    by_cases hr' : s'.runner.left
    · -- the step is the exit
      refine .inr ?_
      cases hs with
      | exit hp h0 =>
        have hzero : Still sys s := by
          refine .of_zero h.sound hint (by rw [hp]; simp) h0 h.silent fun i hi => ?_
          rw [h.sound.fresh i hi]
          exact hsil i
        exact hzero.runner Runner.noConfusion _
      | wake | notify => exact absurd hr' (notifyOne_runner hr)
      | join hp => rw [hp] at hr; exact absurd trivial hr
      | call | again | permit | park => exact absurd hr' id
      | _ => exact absurd hr' hr
    · exact .inl ⟨hint', hr'⟩
  · exact .inr (hstill.step hs)

theorem Run.finished (hsil : SilentStart sys) (h : Run sys ls s) (hq : ∀ l ∈ ls, l.quiet) :
    Finished sys s := by
  refine Transition.Run.induct_on (P := Finished sys)
    (fun hl hstep hs => Finished.step hsil hs hl (step_cases sys hstep)) h hq ?_
  exact ⟨.init sys, fun _ => trivial, ⟨fun _ hd => (by cases hd), fun hd => (by cases hd)⟩,
    .inl ⟨.init sys, id⟩⟩

/-! ## Streams -/

/-- What an actor without fan-in receives, up to the msg_ids, when the one origin of the run brings
`m` to `entry`. -/
inductive Intake (sys : Topology ι τ α σ) (G : ι → ι → Prop) (entry : ι) (m : α) :
    ι → List (Envelope τ α) → Prop where
  | entry (hno : ∀ k, ¬ G k entry) : Intake sys G entry m entry [worldEnvelope sys 0 entry m]
  | next {j i : ι} {us : List (Envelope τ α)} (hj : Intake sys G entry m j us)
      (honly : ∀ k, G k i → k = j) (hne : i ≠ entry) :
      Intake sys G entry m i ((Line.respond sys j us).sent.filter (·.dst = sys.name i))

/-- The one origin of the run brings `m` to `entry`. -/
structure OneOrigin (ls : List (Label ι α)) (entry : ι) (m : α) : Prop where
  count : ls.countP Label.injects ≤ 1
  origin : ∀ addr msg, Label.sendExternal addr msg ∈ ls → addr = entry ∧ msg = m

/-- Every send is made, and everything sent is received. -/
structure Complete (s : Config ι τ α σ) (L : ι → Line ι τ α σ) : Prop where
  calls : ∀ i, ∀ a ∈ (L i).rest, a = .compute
  received : FullyReceived s.events
  origin : recording.count s.events "world" = 1

variable {entry : ι} {m : α}

/-- The actor of the origin, which no one else sends to, receives the origin. -/
theorem Performed.received_of_entry (hn : Named sys) (hw : Wired sys G ok) (h : Run sys ls s)
    (hL : Performed sys ls s L) (hno : ∀ k, ¬ G k entry) (ho : OneOrigin ls entry m) :
    (L entry).received.map (·.unnumbered) <+: [worldEnvelope sys 0 entry m] ∧
      (Complete s L →
        (L entry).received.map (·.unnumbered) = [worldEnvelope sys 0 entry m]) := by
  have hacc := h.account hn
  obtain ⟨-, hsent⟩ := h.wired hn hw
  have hworld : recording.count s.events "world" ≤ 1 := by
    have := h.origins hn
    have := ho.count
    omega
  obtain ⟨origin, hfrom, hworlds⟩ := hL.origin hn hworld
  have hmem : ∀ env ∈ (L entry).received, env ∈ origin := by
    intro env henv
    obtain ⟨-, ⟨k, -, e, he, hactor, hop, hto⟩ | ⟨horigin, hemit⟩⟩ := hL.emit_of_received hacc henv
    · obtain ⟨i', hi', hki⟩ := hsent k e he hactor hop
      obtain rfl := hn.injective (Option.some.inj (hto.symm.trans hi'))
      exact absurd hki (hno k)
    · have hin : emitEvent "world" 1 env ∈ s.events.filter (·.actor = "world") :=
        List.mem_filter.mpr ⟨hemit, by simp [emitEvent]⟩
      rw [hworlds] at hin
      obtain ⟨env', henv', heq⟩ := List.mem_map.mp hin
      have hsome : env' ∈ origin := Option.mem_toList.mp henv'
      obtain rfl := (hfrom env' hsome).unique ho.count horigin
        (mid_inj.mp (congrArg CausalEvent.msgId heq))
      exact hsome
  have hnd : (L entry).received.Nodup := by
    obtain ⟨lost, hled⟩ := hacc.ledger
    have hrecvs := congrArg (List.map Prod.snd) (Line.Path.shown (hL.played.path entry)).received
    rw [List.map_map, List.map_map, hL.played.events entry] at hrecvs
    have hmids : ((L entry).received.map fun env => mid env.msgId).Nodup :=
      hrecvs ▸ ((List.filter_sublist.filter _).map _).nodup (hled.recvs_nodup hacc.issued)
    exact hmids.of_map
  have hun : ∀ env ∈ origin, env.unnumbered = worldEnvelope sys 0 entry m := by
    intro env henv
    obtain ⟨n, addr, msg, hl, rfl⟩ := hfrom env henv
    obtain ⟨rfl, rfl⟩ := ho.origin addr msg hl
    rfl
  have hreceived : Complete s L → (L entry).received ≠ [] := by
    intro hc
    obtain ⟨e, he, hactor⟩ := List.countP_pos_iff.mp (hc.origin ▸ Nat.one_pos)
    have hin : e ∈ s.events.filter (·.actor = "world") := List.mem_filter.mpr ⟨he, hactor⟩
    rw [hworlds] at hin
    obtain ⟨env, henv, rfl⟩ := List.mem_map.mp hin
    obtain ⟨n, addr, msg, hl, rfl⟩ := hfrom env (Option.mem_toList.mp henv)
    obtain ⟨rfl, rfl⟩ := ho.origin addr msg hl
    obtain ⟨r, hr, hrop, hkey⟩ := hc.received.recv_of_emit he rfl
    have hrdst : r.dst = some (sys.name addr) := (Prod.mk.inj (Prod.mk.inj hkey).2).2
    have hractor := Option.some.inj (((hacc.written r hr).receiver hrop).symm.trans hrdst)
    obtain ⟨env', henv', -⟩ := hL.played.received_of_recv hr hrop hractor
    exact List.ne_nil_of_mem henv'
  cases origin with
  | none =>
    have hnil : (L entry).received = [] :=
      List.eq_nil_iff_forall_not_mem.mpr fun env henv => by cases hmem env henv
    rw [hnil]
    exact ⟨List.nil_prefix, fun hc => absurd hnil (hreceived hc)⟩
  | some env =>
    have hall := List.eq_replicate_of_mem fun env' henv' => (Option.mem_some.mp (hmem env' henv')).symm
    rw [hall] at hnd hreceived ⊢
    rw [List.map_replicate, hun env rfl]
    have hlen := List.nodup_replicate.mp hnd
    interval_cases (L entry).received.length
    · exact ⟨List.nil_prefix, fun hc => absurd rfl (hreceived hc)⟩
    · exact ⟨List.prefix_rfl, fun _ => rfl⟩

/-- **What an actor without fan-in receives does not depend on the run**: it is the beginning of one
stream, and all of it when the run is complete. -/
theorem Performed.received_of_intake (hn : Named sys) (hw : Wired sys G ok) (h : Run sys ls s)
    (hL : Performed sys ls s L) (ho : OneOrigin ls entry m) {i : ι} {us : List (Envelope τ α)}
    (hi : Intake sys G entry m i us) : (L i).received.map (·.unnumbered) <+: us ∧
      (Complete s L → (L i).received.map (·.unnumbered) = us) := by
  induction hi with
  | entry hno => exact hL.received_of_entry hn hw h hno ho
  | @next j i us hj honly hne ih =>
    have hsole := hL.src_of_sole hn hw h honly fun msg hl => hne (ho.origin i msg hl).1
    obtain ⟨hbegun, hall⟩ := hL.channel hn h i j
    rw [hsole] at hbegun hall
    have hfilter : ∀ l : List (Envelope τ α), (l.filter (·.dst = sys.name i)).map (·.unnumbered) =
        (l.map (·.unnumbered)).filter (·.dst = sys.name i) := fun l => by
      rw [List.filter_map]
      rfl
    refine ⟨?_, fun hc => ?_⟩
    · refine (hbegun.map _).trans ?_
      rw [hfilter]
      have hsent := (Line.Path.tracks (hL.played.path j)).sent
      exact (hsent.trans (Line.respond_grows ih.1).sent).filter _
    · rw [hall hc.received, hfilter, Line.Path.sent_eq (hL.played.path j) (hc.calls j), ih.2 hc]

/-- What a run of actors that start in silence is when it has ended without a panic. -/
theorem Performed.complete (hn : Named sys) (hsil : SilentStart sys) (h : Run sys ls s)
    (hL : Performed sys ls s L) (hq : ∀ l ∈ ls, l.quiet) (hdone : s.runner = .done)
    (h1 : ls.countP Label.injects = 1) : Complete s L ∧
      ∀ i, (s.tasks i).pc ≠ .spawned → (L i).rest = [] := by
  have hfin := h.finished hsil hq
  have hstill : Still sys s := hfin.still.resolve_left fun hint => hint.2 (by rw [hdone]; trivial)
  have hpc : ∀ i, (s.tasks i).pc = .spawned ∨ (s.tasks i).pc = .waiting := fun i =>
    hfin.ended.pc i (hfin.ended.joined hdone i)
  have hrest : ∀ i, (s.tasks i).pc ≠ .spawned → (L i).rest = [] := by
    intro i hne
    obtain ⟨-, -, hrest⟩ := (hL.played.task i).running hne
    rw [hrest, (hpc i).resolve_left hne]
    rfl
  refine ⟨⟨fun i => ?_, hfin.sound.issued.fullyReceived hstill.matched, ?_⟩, hrest⟩
  · by_cases hi : (s.tasks i).pc = .spawned
    · obtain ⟨-, -, hstart⟩ := (hL.played.task i).fresh hi
      rw [hstart]
      exact hsil i
    · rw [hrest i hi]
      exact fun a ha => by cases ha
  · have horigins := h.origins hn
    rw [Config.unrecorded, hstill.external] at horigins
    rw [← h1, ← horigins]
    rfl

/-- **Without fan-in the schedule leaves no trace.**  Let an actor be such that it, and every actor
on the way to it from the one origin, has only one sender.  In every run its recorded world-line,
msg_ids apart, begins one fixed line, a function of the origin and the actors alone.  When a run of
actors that send nothing in `started` has ended without a panic, it is that line, the final state of
the actor included. -/
theorem world_lines_determined (hn : Named sys) (hw : Wired sys G ok) (h : Run sys ls s)
    (ho : OneOrigin ls entry m) {i : ι} {us : List (Envelope τ α)}
    (hi : Intake sys G entry m i us) :
    (s.events.filter (·.actor = sys.name i)).map (·.unnumbered) <+: (Line.respond sys i us).events ∧
      (SilentStart sys → (∀ l ∈ ls, l.quiet) → s.runner = .done → ls.countP Label.injects = 1 →
        (s.tasks i).pc ≠ .spawned →
          (s.events.filter (·.actor = sys.name i)).map (·.unnumbered) =
              (Line.respond sys i us).events ∧
            (s.tasks i).state = (Line.respond sys i us).state) := by
  obtain ⟨L, hL⟩ := h.performed hn
  obtain ⟨hbegun, hall⟩ := hL.received_of_intake hn hw h ho hi
  rw [← hL.played.events i]
  refine ⟨?_, fun hsil hq hdone h1 hpc => ?_⟩
  · exact (Line.Path.tracks (hL.played.path i)).events.trans (Line.respond_grows hbegun).events
  · obtain ⟨hc, hrest⟩ := hL.complete hn hsil h hq hdone h1
    have hline := Line.Path.settled (hL.played.path i) (hrest i hpc)
    rw [hall hc] at hline
    obtain ⟨hstate, -, -⟩ := (hL.played.task i).running hpc
    have hstate' : (L i).unnumbered.state = _ := congrArg Line.state hline
    exact ⟨congrArg Line.events hline, hstate.symm.trans hstate'⟩

/-- The sink hears from the courier alone. -/
theorem couriers_intake : Intake couriers (fun i j => i = true ∧ j = false) true 7 false
    ((Line.respond couriers true [worldEnvelope couriers 0 true 7]).sent.filter
      (·.dst = couriers.name false)) :=
  .next (.entry fun k hk => by cases hk.2) (fun k hk => hk.1) (by decide)

/-- The world-line of the sink is its receipt of the number passed on. -/
theorem world_lines_determined_couriers : ∃ s, Run couriers closedDelivery s ∧
    ((s.events.filter (·.actor = "sink")).map (·.unnumbered)).length = 1 ∧
    (s.events.filter (·.actor = "sink")).map (·.unnumbered) = (Line.respond couriers false
      ((Line.respond couriers true [worldEnvelope couriers 0 true 7]).sent.filter
        (·.dst = couriers.name false))).events := by
  obtain ⟨s, hrun, hlen, hdone, hpc⟩ : ∃ s, Run couriers closedDelivery s ∧
      ((s.events.filter (·.actor = "sink")).map (·.unnumbered)).length = 1 ∧ s.runner = .done ∧
        (s.tasks false).pc = .waiting := ⟨_, rfl, rfl, rfl, rfl⟩
  have horigin : OneOrigin closedDelivery true 7 := by
    refine ⟨by decide, fun addr msg hl => ?_⟩
    simp [closedDelivery, deliveredRun] at hl
    exact hl
  have hquiet : ∀ l ∈ closedDelivery, l.quiet := by
    simp [closedDelivery, deliveredRun, Label.quiet]
  have hall := (world_lines_determined couriers_named couriers_wired hrun horigin
    couriers_intake).2 (fun i a ha => by cases ha) hquiet hdone (by decide) (by rw [hpc]; simp)
  exact ⟨s, hrun, hlen, hall.1⟩

end Prod

end Lichtung
