import Lichtung.Prod.Streams

/-!
# The risk desk

Model of `crates/lichtung-replay/examples/risk_desk.rs`: a feed fans every tick of three symbols out
to a fast and a slow pricer, a book folds their quotes into an aggregate that depends on the order,
and a risk actor consumes the book's marks.  Prices (`f64`) are a type `P` with the arithmetic of
the example as parameters: nothing below depends on it.

Principal results: `quotes_spacelike` (in every run each fast quote is concurrent with each slow
quote of its symbol, so `readback` counts all pairs) and `book_merges` (what the book computes is a
fold of two fixed streams of quotes, in some order).
-/

namespace Lichtung.Prod.RiskDesk

/-- The arithmetic on `f64`. -/
structure Kernels (P : Type) where
  zero : P
  /-- `close * 1.02`. -/
  otm : P → P
  /-- `30.0 / 365.0`. -/
  maturity : P
  /-- `bs_call(spot, strike, t, vol)`. -/
  bsCall : P → P → P → P → P
  /-- `crr_call(spot, strike, t, vol, steps)`. -/
  crrCall : P → P → P → P → Nat → P
  /-- `alpha * price + (1.0 - alpha) * ewma`. -/
  blend : P → P → P
  /-- `rv + (ewma - last_ewma).powi(2)`. -/
  vary : P → P → P → P
  /-- `ewma > limit`. -/
  exceeds : P → P → Bool

/-! ## Messages -/

/-- `SYMBOLS`; a `sym: usize` is an index into it. -/
def SYMBOLS : Vector String 3 := #v["btc", "eth", "sol"]

abbrev Sym := Fin 3

structure Tick (P : Type) where
  sym : Sym
  tick : Nat
  spot : P
  strike : P
  t : P
  vol : P

inductive Kind where
  | fast
  | slow
  deriving DecidableEq

structure Quote (P : Type) where
  sym : Sym
  tick : Nat
  kind : Kind
  price : P

structure Mark (P : Type) where
  sym : Sym
  ewma : P

/-- The message types. -/
inductive MsgType where
  | session
  | tick
  | quote
  | mark
  deriving DecidableEq

inductive Msg (P : Type) where
  | session (id : Nat)
  | tick (t : Tick P)
  | quote (q : Quote P)
  | mark (m : Mark P)

/-! ## States -/

/-- What the book concluded for one symbol. -/
structure BookCell (P : Type) where
  ewma : P
  folds : Nat
  lastTick : Nat
  lastKindIsFast : Bool

structure Portfolio (P : Type) where
  rv : P
  lastEwma : P
  seen : Nat
  breaches : Nat

/-- The tape of one symbol, as far as it is played. -/
structure SymSeries (P : Type) (ticks : Nat) where
  closes : Fin ticks → P
  vols : Fin ticks → P

/-- The arguments of `run_desk`, and the limits. -/
structure Desk (P : Type) where
  kernels : Kernels P
  ticks : Nat
  series : Sym → SymSeries P ticks
  steps : Nat
  limits : Sym → P

/-- The world-lines. -/
inductive Post where
  | risk
  | book
  | fast (sym : Sym)
  | slow (sym : Sym)
  | feed
  deriving DecidableEq, Fintype

/-- What an actor changes while it runs. -/
inductive State (P : Type) where
  /-- The feed and the pricers change nothing. -/
  | fixed
  | book (cells : Sym → BookCell P)
  | risk (port : Portfolio P)

/-! ## Actors -/

section Actors

variable {P : Type} (d : Desk P)

/-- The tick that the feed sends to both pricers of a symbol. -/
def Desk.tick (sym : Sym) (tick : Fin d.ticks) : Tick P where
  sym := sym
  tick := tick
  spot := (d.series sym).closes tick
  strike := d.kernels.otm ((d.series sym).closes tick)
  t := d.kernels.maturity
  vol := (d.series sym).vols tick

/-- The two loops of `Feed::handle`. -/
def feedCalls : List (Action Post (Msg P)) :=
  (List.finRange d.ticks).flatMap fun tick =>
    (List.finRange 3).flatMap fun sym =>
      [.send (.fast sym) (.tick (d.tick sym tick)), .send (.slow sym) (.tick (d.tick sym tick))]

def fastQuote (t : Tick P) : Quote P :=
  ⟨t.sym, t.tick, .fast, d.kernels.bsCall t.spot t.strike t.t t.vol⟩

/-- The price is that of the last of the four refinements, `m` of `1..=4`. -/
def slowPrice (t : Tick P) : P :=
  [1, 2, 3, 4].foldl
    (fun _ m => d.kernels.crrCall t.spot t.strike t.t t.vol (max (d.steps * m / 4) 2))
    d.kernels.zero

def slowQuote (t : Tick P) : Quote P := ⟨t.sym, t.tick, .slow, slowPrice d t⟩

/-- The fold of one quote into its cell. -/
def foldQuote (cell : BookCell P) (q : Quote P) : BookCell P where
  ewma := if cell.folds = 0 then q.price else d.kernels.blend q.price cell.ewma
  folds := cell.folds + 1
  lastTick := if cell.lastTick ≤ q.tick then q.tick else cell.lastTick
  lastKindIsFast := if cell.lastTick ≤ q.tick then q.kind == .fast else cell.lastKindIsFast

/-- `Risk::handle`, and whether it logs a breach. -/
def foldMark (p : Portfolio P) (m : Mark P) : Portfolio P × Bool :=
  let p := if 0 < p.seen then { p with rv := d.kernels.vary p.rv m.ewma p.lastEwma } else p
  let p := { p with lastEwma := m.ewma, seen := p.seen + 1 }
  if d.kernels.exceeds m.ewma (d.limits m.sym) then ({ p with breaches := p.breaches + 1 }, true)
  else (p, false)

def handle : Post → State P → Msg P → State P × List (Action Post (Msg P))
  | .feed, st, .session _ => (st, feedCalls d)
  | .fast _, st, .tick t => (st, [.compute, .send .book (.quote (fastQuote d t))])
  | .slow _, st, .tick t =>
    (st, [.compute, .compute, .compute, .compute, .send .book (.quote (slowQuote d t))])
  | .book, .book cells, .quote q =>
    let cell := foldQuote d (cells q.sym) q
    (.book (Function.update cells q.sym cell), [.compute, .send .risk (.mark ⟨q.sym, cell.ewma⟩)])
  | .risk, .risk p, .mark m =>
    let (p, breach) := foldMark d p m
    (.risk p, if breach then [.compute] else [])
  | _, st, _ => (st, [])

def msgType : Post → MsgType
  | .feed => .session
  | .fast _ | .slow _ => .tick
  | .book => .quote
  | .risk => .mark

def name : Post → ActorId
  | .risk => "risk"
  | .book => "book"
  | .fast sym => "fast-" ++ SYMBOLS[sym]
  | .slow sym => "slow-" ++ SYMBOLS[sym]
  | .feed => "feed"

/-- `BookCell::default()`. -/
def emptyCell : BookCell P := ⟨d.kernels.zero, 0, 0, false⟩

def initial : Post → State P
  | .book => .book fun _ => emptyCell d
  | .risk => .risk ⟨d.kernels.zero, d.kernels.zero, 0, 0⟩
  | _ => .fixed

/-- The actors that `run_desk` spawns.  None overrides `started`. -/
def system : Topology Post MsgType (Msg P) (State P) where
  name := name
  actor post := ⟨msgType post, fun st => (st, []), handle d post⟩
  init := initial d

end Actors

/-! ## Readback -/

/-- `leq`: the product order on wire maps, by a pass over the entries of `a`. -/
def leq (a b : StringMap) : Bool := a.toList.all fun e => e.2 ≤ b.getD e.1 0

def concurrent (a b : CausalEvent) : Bool :=
  !leq a.vclock b.vclock && !leq b.vclock a.vclock

/-- The emits of an actor to the book. -/
def quotesOf (events : List CausalEvent) (actor : ActorId) : List CausalEvent :=
  events.filter fun e => e.op = .emit ∧ e.actor = actor ∧ e.dst = some "book"

/-- `conc`: the nested loop over the fast and slow quotes. -/
def countConcurrent (fast slow : List CausalEvent) : Nat :=
  fast.foldl (fun conc f => slow.foldl (fun conc s => if concurrent f s then conc + 1 else conc) conc)
    0

/-- What `readback` prints of the quotes of one symbol. -/
structure Contention where
  fast : Nat
  slow : Nat
  conc : Nat
  total : Nat

def readback (events : List CausalEvent) (sym : Sym) : Contention :=
  let fast := quotesOf events (name (.fast sym))
  let slow := quotesOf events (name (.slow sym))
  ⟨fast.length, slow.length, countConcurrent fast slow, fast.length * slow.length⟩

theorem leq_iff (a b : StringMap) : leq a b = true ↔ a.components ≤ b.components := by
  rw [leq, List.all_eq_true]
  constructor
  · intro h k
    by_cases hk : k ∈ a
    · have hmem : (k, a[k]) ∈ a.toList :=
        Std.ExtTreeMap.mem_toList_iff_getElem?_eq_some.mpr (Std.ExtTreeMap.getElem?_eq_some_getElem hk)
      have hle := of_decide_eq_true (h _ hmem)
      rw [StringMap.components, Std.ExtTreeMap.getD_eq_getD_getElem?,
        Std.ExtTreeMap.getElem?_eq_some_getElem hk]
      exact hle
    · rw [StringMap.components, Std.ExtTreeMap.getD_eq_fallback hk]
      exact Nat.zero_le _
  · rintro h ⟨k, v⟩ he
    have hk := h k
    rw [StringMap.components, Std.ExtTreeMap.getD_eq_getD_getElem?,
      Std.ExtTreeMap.mem_toList_iff_getElem?_eq_some.mp he] at hk
    exact decide_eq_true hk

theorem concurrent_iff (a b : CausalEvent) : concurrent a b = true ↔ Incomparable a b := by
  rw [Incomparable, ← leq_iff, ← leq_iff]
  simp [concurrent]

theorem countConcurrent_eq {fast slow : List CausalEvent}
    (h : ∀ f ∈ fast, ∀ s ∈ slow, concurrent f s = true) :
    countConcurrent fast slow = fast.length * slow.length := by
  have hinner : ∀ {f : CausalEvent} (l : List CausalEvent) (conc : Nat),
      (∀ s ∈ l, concurrent f s = true) →
        l.foldl (fun conc s => if concurrent f s then conc + 1 else conc) conc =
          conc + l.length := by
    intro f l
    induction l with
    | nil => intro conc _; rfl
    | cons s l ih =>
      intro conc hl
      rw [List.foldl_cons, if_pos (hl s (List.mem_cons_self ..)),
        ih _ fun s hs => hl s (List.mem_cons_of_mem _ hs), List.length_cons]
      omega
  have houter : ∀ (l : List CausalEvent) (conc : Nat),
      (∀ f ∈ l, ∀ s ∈ slow, concurrent f s = true) →
        l.foldl (fun conc f =>
          slow.foldl (fun conc s => if concurrent f s then conc + 1 else conc) conc) conc =
            conc + l.length * slow.length := by
    intro l
    induction l with
    | nil => intro conc _; simp
    | cons f l ih =>
      intro conc hl
      rw [List.foldl_cons, hinner slow conc (hl f (List.mem_cons_self ..)),
        ih _ fun f hf => hl f (List.mem_cons_of_mem _ hf), List.length_cons, Nat.succ_mul]
      omega
  exact (houter fast 0 h).trans (Nat.zero_add _)

/-! ## The wiring -/

/-- Who holds whose address. -/
def wire : Post → Post → Prop
  | .feed, .fast _ | .feed, .slow _ | .fast _, .book | .slow _, .book | .book, .risk => True
  | _, _ => False

variable {P : Type} (d : Desk P)

theorem name_injective : Function.Injective name := by decide

theorem named : Named (system d) := ⟨name_injective, (by decide : ∀ post, name post ≠ "world")⟩

theorem wired : Wired (system d) wire fun _ _ => True where
  init := fun _ => trivial
  started := fun _ _ _ => ⟨trivial, fun addr msg hmem => by cases hmem⟩
  handle := by
    rintro post st msg -
    refine ⟨trivial, fun addr msg' hmem => ?_⟩
    change _ ∈ (handle d post st msg).2 at hmem
    unfold handle at hmem
    split at hmem
    · simp only [feedCalls, List.mem_flatMap, List.mem_cons, List.not_mem_nil, or_false,
        Action.send.injEq] at hmem
      obtain ⟨tick, -, sym, -, ⟨rfl, -⟩ | ⟨rfl, -⟩⟩ := hmem <;> trivial
    · simp only [List.mem_cons, reduceCtorEq, Action.send.injEq, List.not_mem_nil, or_false,
        false_or] at hmem
      obtain ⟨rfl, -⟩ := hmem
      trivial
    · simp only [List.mem_cons, reduceCtorEq, Action.send.injEq, List.not_mem_nil, or_false,
        false_or] at hmem
      obtain ⟨rfl, -⟩ := hmem
      trivial
    · simp only [List.mem_cons, reduceCtorEq, Action.send.injEq, List.not_mem_nil, or_false,
        false_or] at hmem
      obtain ⟨rfl, -⟩ := hmem
      trivial
    · dsimp only at hmem
      split at hmem <;> simp at hmem
    · cases hmem

theorem silent : SilentStart (system d) := fun _ _ ha => by cases ha

/-- The pricers of the desk, by kind. -/
def pricer : Kind → Sym → Post
  | .fast, sym => .fast sym
  | .slow, sym => .slow sym

/-- Nothing leads from one pricer to another. -/
theorem not_reaches_pricer {k k' : Kind} {sym sym' : Sym} (hne : pricer k sym ≠ pricer k' sym') :
    ¬ Reaches wire (pricer k sym) (pricer k' sym') := by
  have hdown : ∀ {post}, Reaches wire (pricer k sym) post →
      post = pricer k sym ∨ post = .book ∨ post = .risk := by
    intro post hreach
    induction hreach with
    | refl => exact .inl rfl
    | @tail p q _ hstep ih =>
      rcases ih with rfl | rfl | rfl
      · cases k <;> cases q <;> first | exact .inr (.inl rfl) | exact absurd hstep id
      · cases q <;> first | exact .inr (.inr rfl) | exact absurd hstep id
      · exact absurd hstep id
  intro hreach
  rcases hdown hreach with h | h | h
  · exact hne h.symm
  · cases k' <;> cases h
  · cases k' <;> cases h

/-! ## Spacelike quotes -/

variable {d} {ls : List (Label Post (Msg P))} {s : Config Post MsgType (Msg P) (State P)}

theorem mem_quotesOf {events : List CausalEvent} {actor : ActorId} {e : CausalEvent} :
    e ∈ quotesOf events actor ↔
      e ∈ events ∧ e.op = .emit ∧ e.actor = actor ∧ e.dst = some "book" := by
  rw [quotesOf, List.mem_filter, decide_eq_true_eq]

theorem incomparable_of_quotes (h : Run (system d) ls s) {sym sym' : Sym} {f q : CausalEvent}
    (hf : f ∈ quotesOf s.events (name (.fast sym))) (hq : q ∈ quotesOf s.events (name (.slow sym'))) :
    Incomparable f q := by
  obtain ⟨hf, -, hfa, -⟩ := mem_quotesOf.mp hf
  obtain ⟨hq, -, hqa, -⟩ := mem_quotesOf.mp hq
  have hfast : ¬ Reaches wire (pricer .fast sym) (pricer .slow sym') :=
    not_reaches_pricer (by simp [pricer])
  have hslow : ¬ Reaches wire (pricer .slow sym') (pricer .fast sym) :=
    not_reaches_pricer (by simp [pricer])
  exact (h.influenced (named d) (wired d)).incomparable hfast hslow hf hfa hq hqa

/-- **Every fast quote is concurrent with every slow quote**, in every run, whatever the tape and the
schedule: `readback` counts all pairs of a symbol as concurrent, and the replay of the log, in any
order, lists them all. -/
theorem quotes_spacelike (h : Run (system d) ls s) (sym : Sym) :
    (readback s.events sym).conc = (readback s.events sym).total ∧
      (ls.countP Label.injects ≤ 1 → ∀ log, log.Perm s.events → ∃ r, replayLog log = .ok r ∧
        ∀ f ∈ quotesOf s.events (name (.fast sym)), ∀ q ∈ quotesOf s.events (name (.slow sym)),
          (f.id, q.id) ∈ r.posetJson.concurrent ∨ (q.id, f.id) ∈ r.posetJson.concurrent) := by
  refine ⟨countConcurrent_eq fun f hf q hq =>
    (concurrent_iff f q).mpr (incomparable_of_quotes h hf hq), fun h1 log hp => ?_⟩
  have hok := h.accepted (named d) h1 hp
  obtain ⟨r, hr⟩ := replayLog_ok_iff.mpr hok
  refine ⟨r, hr, fun f hf q hq => ?_⟩
  have hmem : ∀ {e actor}, e ∈ quotesOf s.events actor → e ∈ log := fun he =>
    hp.mem_iff.mpr (mem_quotesOf.mp he).1
  obtain ⟨r', hr', hlisted⟩ :=
    listed_of_incomparable hok (hmem hf) (hmem hq) (incomparable_of_quotes h hf hq)
  cases hr.symm.trans hr'
  exact hlisted

/-- A desk with one tick and arithmetic on natural numbers. -/
def oneTick : Desk Nat where
  kernels := ⟨0, id, 30, fun spot _ _ _ => spot, fun spot _ _ _ steps => spot + steps,
    fun price ewma => price + ewma, fun rv ewma last => rv + (ewma - last), fun _ _ => false⟩
  ticks := 1
  series _ := ⟨fun _ => 100, fun _ => 1⟩
  steps := 8
  limits _ := 0

/-- `n` operations of one task. -/
def steps (n : Nat) (post : Post) : List (Label Post (Msg Nat)) := List.replicate n (.task post)

/-- The origin, up to its delivery. -/
def opening : List (Label Post (Msg Nat)) :=
  [.sendExternal .feed (.session 1), .external 0, .external 0, .external 0]

/-- One tick is quoted by both pricers of the first symbol. -/
def quotedRun : List (Label Post (Msg Nat)) :=
  steps 2 .feed ++ steps 2 (.fast 0) ++ steps 2 (.slow 0) ++ opening ++ steps 10 .feed ++
    steps 7 (.fast 0) ++ steps 10 (.slow 0)

theorem quotes_spacelike_oneTick : ∃ s, Run (system oneTick) quotedRun s ∧
    (readback s.events 0).total = 1 ∧ (readback s.events 0).conc = (readback s.events 0).total := by
  have hend : (Transition.exec (step (system oneTick)) quotedRun (.init (system oneTick))).map
      (fun s => (readback s.events 0).total) = some 1 := by decide +kernel
  obtain ⟨s, hrun, htotal⟩ := Option.map_eq_some_iff.mp hend
  exact ⟨s, hrun, htotal, (quotes_spacelike hrun 0).1⟩

/-! ## The streams of quotes -/

variable (d)

/-- The quote of a pricer. -/
def quote : Kind → Tick P → Quote P
  | .fast => fastQuote d
  | .slow => slowQuote d

/-- The quotes of a pricer for the whole tape. -/
def quotes (k : Kind) (sym : Sym) : List (Quote P) :=
  (List.finRange d.ticks).map fun tick => quote d k (d.tick sym tick)

/-- The ticks that reach a pricer, up to the msg_ids. -/
def ticksTo (session : Nat) (k : Kind) (sym : Sym) : List (Envelope MsgType (Msg P)) :=
  (Line.respond (system d) .feed [worldEnvelope (system d) 0 .feed (.session session)]).sent.filter
    (·.dst = name (pricer k sym))

theorem intake (session : Nat) (k : Kind) (sym : Sym) :
    Intake (system d) wire .feed (.session session) (pricer k sym) (ticksTo d session k sym) := by
  refine .next (.entry fun post => by cases post <;> exact id) (fun post hpost => ?_) ?_
  · cases k <;> cases post <;> first | rfl | exact absurd hpost id
  · cases k <;> simp [pricer]

omit d in
theorem pricer_injective {k k' : Kind} {sym sym' : Sym} :
    name (pricer k sym) = name (pricer k' sym') ↔ k = k' ∧ sym = sym' := by
  rw [name_injective.eq_iff]
  cases k <;> cases k' <;> simp [pricer]

/-- The feed sends every tick of the tape to each pricer of its symbol, in order. -/
theorem ticksTo_messages (session : Nat) (k : Kind) (sym : Sym) :
    (ticksTo d session k sym).map (·.msg.val) =
      (List.finRange d.ticks).map fun tick => .tick (d.tick sym tick) := by
  have hfilter : (ticksTo d session k sym).map (·.msg.val) =
      ((Line.respond (system d) .feed [worldEnvelope (system d) 0 .feed
        (.session session)]).messages.filter (·.1 = name (pricer k sym))).map (·.2) := by
    rw [Line.messages, ticksTo, List.filter_map, List.map_map]
    rfl
  -- one round of the inner loop
  have hround : ∀ tick, (((List.finRange 3).flatMap fun sym' =>
      [(name (pricer .fast sym'), Msg.tick (d.tick sym' tick)),
        (name (pricer .slow sym'), Msg.tick (d.tick sym' tick))]).filter
          (·.1 = name (pricer k sym))).map (·.2) = [Msg.tick (d.tick sym tick)] := by
    intro tick
    simp only [List.finRange_succ, List.finRange_zero, List.map_nil, List.map_cons,
      List.flatMap_cons, List.flatMap_nil, List.cons_append, List.nil_append, List.filter_cons,
      pricer_injective, List.filter_nil]
    cases k <;> fin_cases sym <;> rfl
  have hsends : Line.sends (system d) (feedCalls d) = (List.finRange d.ticks).flatMap fun tick =>
      (List.finRange 3).flatMap fun sym' =>
        [(name (pricer .fast sym'), Msg.tick (d.tick sym' tick)),
          (name (pricer .slow sym'), Msg.tick (d.tick sym' tick))] := by
    simp only [Line.sends, feedCalls, List.filterMap_flatMap]
    rfl
  have hreplies : (Line.respond (system d) .feed [worldEnvelope (system d) 0 .feed
      (.session session)]).messages = Line.sends (system d) (feedCalls d) :=
    (Line.respond_messages _).1.trans (List.append_nil _)
  rw [hfilter, hreplies, hsends, List.filter_flatMap, List.map_flatMap]
  simp only [hround]
  exact List.map_eq_flatMap.symm

/-- A pricer answers every tick with its quote. -/
theorem replies_pricer (k : Kind) (sym : Sym) (ticks : List (Tick P)) (st : State P) :
    Line.replies (system d) (pricer k sym) st (ticks.map .tick) =
      ticks.map fun t => ("book", Msg.quote (quote d k t)) := by
  induction ticks generalizing st with
  | nil => rfl
  | cons t ticks ih =>
    rw [List.map_cons, List.map_cons, Line.replies, ih]
    cases k <;> rfl

/-- What a pricer sends, when it has received all its ticks. -/
theorem messages_pricer (session : Nat) (k : Kind) (sym : Sym) :
    (Line.respond (system d) (pricer k sym) (ticksTo d session k sym)).messages =
      (quotes d k sym).map fun q => ("book", Msg.quote q) := by
  have hticks : (List.finRange d.ticks).map (fun tick => Msg.tick (d.tick sym tick)) =
      ((List.finRange d.ticks).map (d.tick sym)).map .tick := by
    rw [List.map_map]
    rfl
  rw [(Line.respond_messages _).1, ticksTo_messages, hticks]
  refine (replies_pricer d k sym _ _).trans ?_
  rw [quotes, List.map_map, List.map_map]
  rfl

/-! ## The book -/

/-- The quotes of one symbol among some messages. -/
def quotesIn (sym : Sym) (msgs : List (Msg P)) : List (Quote P) :=
  msgs.filterMap fun
    | .quote q => if q.sym = sym then some q else none
    | _ => none

/-- The book folds the quotes of each symbol, in the order they arrive. -/
theorem after_book (msgs : List (Msg P)) (cells : Sym → BookCell P) :
    Line.after (system d) .book (.book cells) msgs =
      .book fun sym => (quotesIn sym msgs).foldl (foldQuote d) (cells sym) := by
  induction msgs generalizing cells with
  | nil => rfl
  | cons msg msgs ih =>
    cases msg with
    | quote q =>
      refine (ih (Function.update cells q.sym (foldQuote d (cells q.sym) q))).trans ?_
      congr 1
      funext sym
      by_cases hsym : q.sym = sym
      · subst hsym
        simp [quotesIn]
      · simp [quotesIn, hsym, Function.update_of_ne (Ne.symm hsym)]
    | session | tick | mark => exact ih cells

variable {d} {session : Nat} {L : Post → Line Post MsgType (Msg P) (State P)}

/-- In a complete run the book has received from each pricer its quotes for the whole tape, in
order. -/
theorem received_from_pricer (h : Run (system d) ls s) (hL : Performed (system d) ls s L)
    (ho : OneOrigin ls .feed (.session session)) (hc : Complete s L) (k : Kind) (sym : Sym) :
    ((L .book).received.filter (·.src = name (pricer k sym))).map (·.msg.val) =
        (quotes d k sym).map .quote ∧
      ((L (pricer k sym)).sent.filter (·.dst = name .book)).length = d.ticks := by
  have hline := (hL.received_of_intake (named d) (wired d) h ho (intake d session k sym)).2 hc
  have hsent := Line.Path.sent_eq (hL.played.path (pricer k sym)) (hc.calls _)
  rw [hline] at hsent
  have hmessages : ((L (pricer k sym)).sent.map fun env => (env.dst, env.msg.val)) =
      (quotes d k sym).map fun q => ("book", Msg.quote q) := by
    rw [← messages_pricer d session, Line.messages, ← hsent, List.map_map]
    rfl
  have hall : (L (pricer k sym)).sent.filter (·.dst = name .book) = (L (pricer k sym)).sent := by
    refine List.filter_eq_self.mpr fun env henv => ?_
    have hmem : (env.dst, env.msg.val) ∈ (quotes d k sym).map fun q => ("book", Msg.quote q) :=
      hmessages ▸ List.mem_map_of_mem henv
    obtain ⟨q, -, heq⟩ := List.mem_map.mp hmem
    exact decide_eq_true (Prod.mk.inj heq).1.symm
  have hlen := congrArg List.length hmessages
  rw [List.length_map, List.length_map, quotes, List.length_map, List.length_finRange] at hlen
  refine ⟨?_, by rw [hall]; exact hlen⟩
  have hchannel := (hL.channel (named d) h .book (pricer k sym)).2 hc.received
  have hpayloads := congrArg (List.map Prod.snd) hmessages
  rw [List.map_map, List.map_map] at hpayloads
  exact (congrArg (List.map _) (hchannel.trans hall)).trans hpayloads

/-- The envelope is a quote of the pricer that sent it. -/
def FromPricer (env : Envelope MsgType (Msg P)) : Prop :=
  ∃ q : Quote P, env.msg.val = .quote q ∧ env.src = name (pricer q.kind q.sym)

/-- The book receives from the pricers only. -/
theorem fromPricer_of_received (h : Run (system d) ls s) (hL : Performed (system d) ls s L)
    (ho : OneOrigin ls .feed (.session session)) (hc : Complete s L) :
    ∀ env ∈ (L .book).received, FromPricer env := by
  intro env henv
  have hacc := h.account (named d)
  obtain ⟨-, hsent⟩ := h.wired (named d) (wired d)
  obtain ⟨hdst, ⟨post, hpost, e, he, hactor, hop, hto⟩ | ⟨⟨m, addr, msg, hl, rfl⟩, -⟩⟩ :=
    hL.emit_of_received hacc henv
  · have hsrc := (Line.Path.shown (hL.played.path post)).signed env hpost
    obtain ⟨post', hpost', hwire⟩ := hsent post e he hactor hop
    obtain rfl : .book = post' := name_injective (Option.some.inj (hto.symm.trans hpost'))
    obtain ⟨k, sym, rfl⟩ : ∃ k sym, post = pricer k sym := by
      cases post with
      | fast sym => exact ⟨.fast, sym, rfl⟩
      | slow sym => exact ⟨.slow, sym, rfl⟩
      | _ => exact absurd hwire id
    have hmem : env.msg.val ∈ (quotes d k sym).map .quote := by
      rw [← (received_from_pricer h hL ho hc k sym).1]
      exact List.mem_map_of_mem (List.mem_filter.mpr ⟨henv, decide_eq_true hsrc⟩)
    obtain ⟨q, hq, hval⟩ := List.mem_map.mp hmem
    obtain ⟨tick, -, rfl⟩ := List.mem_map.mp hq
    refine ⟨_, hval.symm, ?_⟩
    cases k <;> exact hsrc
  · obtain ⟨rfl, -⟩ := ho.origin addr msg hl
    exact absurd hdst (by decide : name .feed ≠ name .book)

/-- Among the quotes of a symbol, those of one kind are those of one pricer. -/
theorem quotesIn_kind (k : Kind) (sym : Sym) : ∀ envs : List (Envelope MsgType (Msg P)),
    (∀ env ∈ envs, FromPricer env) →
      ((quotesIn sym (envs.map (·.msg.val))).filter (·.kind = k)).map .quote =
        (envs.filter (·.src = name (pricer k sym))).map (·.msg.val)
  | [], _ => rfl
  | env :: envs, h => by
    obtain ⟨q, hval, hsrc⟩ := h env (List.mem_cons_self ..)
    have ih := quotesIn_kind k sym envs fun env henv => h env (List.mem_cons_of_mem _ henv)
    have hiff : env.src = name (pricer k sym) ↔ q.kind = k ∧ q.sym = sym := by
      rw [hsrc, pricer_injective]
    have hcons : quotesIn sym ((env :: envs).map (·.msg.val)) =
        (if q.sym = sym then [q] else []) ++ quotesIn sym (envs.map (·.msg.val)) := by
      by_cases hsym : q.sym = sym <;> simp [quotesIn, hval, hsym]
    rw [hcons, List.filter_append, List.map_append, ih]
    simp only [List.filter_cons, decide_eq_true_eq]
    by_cases hown : q.kind = k ∧ q.sym = sym
    · rw [if_pos (hiff.mpr hown), List.map_cons, hval]
      simp [hown.1, hown.2]
    · rw [if_neg fun h => hown (hiff.mp h)]
      by_cases hsym : q.sym = sym
      · have hk : q.kind ≠ k := fun hk => hown ⟨hk, hsym⟩
        simp [hsym, hk]
      · simp [hsym]

/-- From which of the two pricers of a symbol each recorded recv of the book comes. -/
def arrivals (events : List CausalEvent) (sym : Sym) : List (Option String) :=
  (events.filter fun e => e.op = .recv ∧ e.actor = name .book ∧
    (e.src = some (name (.fast sym)) ∨ e.src = some (name (.slow sym)))).map (·.src)

theorem quotesIn_src (sym : Sym) : ∀ envs : List (Envelope MsgType (Msg P)),
    (∀ env ∈ envs, FromPricer env) →
      (envs.map fun env => some env.src).filter
          (fun src => src = some (name (.fast sym)) ∨ src = some (name (.slow sym))) =
        (quotesIn sym (envs.map (·.msg.val))).map fun q => some (name (pricer q.kind sym))
  | [], _ => rfl
  | env :: envs, h => by
    obtain ⟨q, hval, hsrc⟩ := h env (List.mem_cons_self ..)
    have ih := quotesIn_src sym envs fun env henv => h env (List.mem_cons_of_mem _ henv)
    have hkind : ∀ k, name (pricer q.kind q.sym) = name (pricer k sym) ↔ q.kind = k ∧ q.sym = sym :=
      fun k => pricer_injective
    have hiff : (some env.src = some (name (.fast sym)) ∨ some env.src = some (name (.slow sym))) ↔
        q.sym = sym := by
      rw [hsrc, Option.some_inj, Option.some_inj]
      exact (or_congr (hkind .fast) (hkind .slow)).trans (by cases q.kind <;> simp)
    rw [List.map_cons, List.filter_cons, ih]
    by_cases hsym : q.sym = sym
    · rw [if_pos (decide_eq_true (hiff.mpr hsym))]
      simp [quotesIn, hval, hsym, hsrc]
    · rw [if_neg fun hk => hsym (hiff.mp (of_decide_eq_true hk))]
      simp [quotesIn, hval, hsym]

/-- The quotes of a symbol arrive at the book as its recvs are recorded. -/
theorem arrivals_eq (h : Run (system d) ls s) (hL : Performed (system d) ls s L)
    (ho : OneOrigin ls .feed (.session session)) (hc : Complete s L) (sym : Sym) :
    arrivals s.events sym = (quotesIn sym ((L .book).received.map (·.msg.val))).map
      fun q => some (name (pricer q.kind sym)) := by
  have hsrcs := congrArg (List.map Prod.fst) (Line.Path.shown (hL.played.path .book)).received
  rw [List.map_map, List.map_map, hL.played.events .book] at hsrcs
  rw [← quotesIn_src sym _ (fromPricer_of_received h hL ho hc), arrivals,
    filter_channel s.events .recv (name .book) fun e =>
      e.src = some (name (.fast sym)) ∨ e.src = some (name (.slow sym))]
  refine Eq.trans ?_ (congrArg (List.filter _) hsrcs)
  rw [List.filter_map]
  rfl

/-- **The book is a merge of fixed streams.**  When a run of the desk has ended without a panic,
each pricer has quoted every tick of its symbol, and the book's cell is the fold of those quotes in
the order in which their recvs are recorded: the quotes of each pricer are there in full and in
order, the same in every run, and only how the two streams interleave is left to the schedule. -/
theorem book_merges (h : Run (system d) ls s) (hq : ∀ l ∈ ls, l.quiet) (hdone : s.runner = .done)
    (ho : OneOrigin ls .feed (.session session)) (h1 : ls.countP Label.injects = 1) (sym : Sym) :
    (readback s.events sym).fast = d.ticks ∧ (readback s.events sym).slow = d.ticks ∧
      ∃ (cells : Sym → BookCell P) (qs : List (Quote P)), (s.tasks .book).state = .book cells ∧
        cells sym = qs.foldl (foldQuote d) (emptyCell d) ∧
        arrivals s.events sym = qs.map (fun q => some (name (pricer q.kind sym))) ∧
        qs.filter (·.kind = .fast) = quotes d .fast sym ∧
        qs.filter (·.kind = .slow) = quotes d .slow sym := by
  obtain ⟨L, hL⟩ := h.performed (named d)
  obtain ⟨hc, hrest⟩ := hL.complete (named d) (silent d) h hq hdone h1
  have hcount : ∀ k, (quotesOf s.events (name (pricer k sym))).length = d.ticks := fun k => by
    have hsent := congrArg List.length (hL.played.sentTo_eq (pricer k sym) .book)
    rw [List.length_map] at hsent
    exact (List.length_map _).symm.trans (hsent.trans (received_from_pricer h hL ho hc k sym).2)
  have hkind : ∀ k, (quotesIn sym ((L .book).received.map (·.msg.val))).filter (·.kind = k) =
      quotes d k sym := fun k => by
    have hinj : Function.Injective (Msg.quote : Quote P → Msg P) := fun _ _ h => Msg.quote.inj h
    refine hinj.list_map ?_
    rw [quotesIn_kind k sym _ (fromPricer_of_received h hL ho hc)]
    exact (received_from_pricer h hL ho hc k sym).1
  have hstate : (s.tasks .book).state = Line.after (system d) .book
      (.book fun _ => emptyCell d) ((L .book).received.map (·.msg.val)) := by
    by_cases hpc : (s.tasks .book).pc = .spawned
    · obtain ⟨hfresh, -, hstart⟩ := (hL.played.task .book).fresh hpc
      rw [hfresh, hstart]
      rfl
    · obtain ⟨hline, -, -⟩ := (hL.played.task .book).running hpc
      have hsettled := congrArg Line.state
        (Line.Path.settled (hL.played.path .book) (hrest .book hpc))
      rw [(Line.respond_messages _).2, List.map_map] at hsettled
      exact hline.symm.trans hsettled
  rw [after_book] at hstate
  exact ⟨hcount .fast, hcount .slow, _, _, hstate, rfl, arrivals_eq h hL ho hc sym, hkind .fast,
    hkind .slow⟩

/-- Every actor of the desk, in some order. -/
def posts : List Post :=
  [.risk, .book, .fast 0, .slow 0, .fast 1, .slow 1, .fast 2, .slow 2, .feed]

/-- The desk plays its one tick to the end. -/
def sessionRun : List (Label Post (Msg Nat)) :=
  (posts.flatMap fun post => steps 2 post) ++ opening ++ steps 27 .feed ++
    ([0, 1, 2].flatMap fun sym => steps 8 (.fast sym) ++ steps 11 (.slow sym)) ++ steps 48 .book ++
    steps 19 .risk ++ [.runner, .runner] ++ posts.map .abort ++ posts.map .cancel ++ [.runner]

/-- Apart from the opening the labels of the session are no injections and no panics. -/
theorem mem_sessionRun {l : Label Post (Msg Nat)} (hl : l ∈ sessionRun) :
    l ∈ opening ∨ l.quiet ∧ l.injects = false := by
  have hsteps : ∀ {n post}, l ∈ steps n post → l.quiet ∧ l.injects = false := by
    intro n post h
    obtain rfl := List.eq_of_mem_replicate h
    exact ⟨trivial, rfl⟩
  simp only [sessionRun, List.mem_append, List.mem_flatMap, List.mem_map, List.mem_cons,
    List.not_mem_nil, or_false] at hl
  obtain (((((((((⟨_, -, h⟩ | h) | h) | ⟨_, -, h | h⟩) | h) | h) | (rfl | rfl)) |
    ⟨_, -, rfl⟩) | ⟨_, -, rfl⟩) | rfl) := hl
  any_goals exact .inr ⟨trivial, rfl⟩
  · exact .inr (hsteps h)
  · exact .inl h
  all_goals exact .inr (hsteps h)

/-- Each pricer quoted the one tick, and the book folded both quotes. -/
theorem book_merges_oneTick : ∃ s, Run (system oneTick) sessionRun s ∧
    (readback s.events 0).fast = 1 ∧ (readback s.events 0).slow = 1 ∧
    ∃ cells qs, (s.tasks .book).state = .book cells ∧
      cells 0 = List.foldl (foldQuote oneTick) (emptyCell oneTick) qs ∧
      arrivals s.events 0 = qs.map (fun q => some (name (pricer q.kind 0))) ∧
      qs.filter (·.kind = .fast) = quotes oneTick .fast 0 ∧
      qs.filter (·.kind = .slow) = quotes oneTick .slow 0 := by
  have hend : (Transition.exec (step (system oneTick)) sessionRun (.init (system oneTick))).map
      (fun s => s.runner) = some .done := by decide +kernel
  obtain ⟨s, hrun, hdone⟩ := Option.map_eq_some_iff.mp hend
  have hquiet : ∀ l ∈ sessionRun, l.quiet := by
    intro l hl
    rcases mem_sessionRun hl with h | h
    · simp only [opening, List.mem_cons, List.not_mem_nil, or_false] at h
      rcases h with rfl | rfl | rfl | rfl <;> trivial
    · exact h.1
  have horigin : OneOrigin sessionRun .feed (.session 1) := by
    refine ⟨by decide, fun addr msg hl => ?_⟩
    rcases mem_sessionRun hl with h | h
    · simpa [opening] using h
    · cases h.2
  exact ⟨s, hrun, book_merges hrun hquiet hdone horigin (by decide) 0⟩

end Lichtung.Prod.RiskDesk
