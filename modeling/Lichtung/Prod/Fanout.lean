import Lichtung.Prod.Bounds
import Lichtung.Prod.Work

/-!
# The fan-out example

Model of `crates/lichtung-prod/examples/fanout.rs`, the program of the acceptance test
`fanout_log_is_schema_valid_with_concurrency`: a source splits its input over two workers, which
report to one sink.  What the test asserts of the run it happens to see holds in every run.

Principal result: `fanout_accepted`.
-/

namespace Lichtung.Prod.Fanout

open Transition

inductive Role where
  | source
  | workerA
  | workerB
  | sink
  deriving DecidableEq

instance : Fintype Role := ⟨{.source, .workerA, .workerB, .sink}, fun r => by cases r <;> decide⟩

/-- What `handle` does.  The arithmetic wraps; where overflow checks are on it panics instead. -/
def handle : Role → UInt32 → List (Action Role UInt32)
  | .source, n => [.send .workerA n, .send .workerB (n + 100)]
  | .workerA, n | .workerB, n => [.compute, .send .sink (n * 2)]
  | .sink, _ => [.compute]

def name : Role → ActorId
  | .source => "source"
  | .workerA => "worker-a"
  | .workerB => "worker-b"
  | .sink => "sink"

/-- The system `main` builds. -/
def system : Topology Role Unit UInt32 Unit where
  name := name
  actor role := ⟨(), fun st => (st, []), fun st n => (st, handle role n)⟩
  init _ := ()

theorem named : Named system := ⟨by decide, by decide⟩

/-! ## Prices -/

/-- The events a message leads to. -/
def cost : Role → Kinds
  | .sink => {("sink", .recv), ("sink", .compute)}
  | .workerA =>
    {("worker-a", .recv), ("worker-a", .compute), ("worker-a", .emit), ("sink", .recv),
      ("sink", .compute)}
  | .workerB =>
    {("worker-b", .recv), ("worker-b", .compute), ("worker-b", .emit), ("sink", .recv),
      ("sink", .compute)}
  | .source =>
    {("source", .recv), ("source", .emit), ("source", .emit), ("worker-a", .recv),
      ("worker-a", .compute), ("worker-a", .emit), ("worker-b", .recv), ("worker-b", .compute),
      ("worker-b", .emit), ("sink", .recv), ("sink", .compute), ("sink", .recv),
      ("sink", .compute)}

theorem priced : Priced system fun role _ => cost role where
  starts := fun _ => rfl
  handles := by
    intro role st n
    cases role with
    | source =>
      show cost .source = {("source", .recv)} +
        ({("source", .emit)} + cost .workerA + ({("source", .emit)} + cost .workerB + 0))
      decide
    | workerA =>
      show cost .workerA = {("worker-a", .recv)} +
        ({("worker-a", .compute)} + ({("worker-a", .emit)} + cost .sink + 0))
      decide
    | workerB =>
      show cost .workerB = {("worker-b", .recv)} +
        ({("worker-b", .compute)} + ({("worker-b", .emit)} + cost .sink + 0))
      decide
    | sink =>
      show cost .sink = {("sink", .recv)} + ({("sink", .compute)} + 0)
      decide

/-- Every origin goes to the source. -/
def FromMain (ls : List (Label Role UInt32)) : Prop :=
  ∀ addr n, Label.sendExternal addr n ∈ ls → addr = .source

theorem worth_eq : ∀ {ls : List (Label Role UInt32)}, FromMain ls →
    worth (fun role _ => cost role) ls =
      ls.countP Label.injects • ({("world", .emit)} + cost .source)
  | [], _ => by simp [worth]
  | l :: ls, h => by
    have hrest : FromMain ls := fun addr n hl => h addr n (List.mem_cons_of_mem _ hl)
    have ih := worth_eq hrest
    unfold worth at ih ⊢
    rw [List.map_cons, List.sum_cons, ih]
    cases l with
    | sendExternal addr n =>
      obtain rfl := h addr n (List.mem_cons_self ..)
      rw [List.countP_cons_of_pos (by rfl), succ_nsmul']
      rfl
    | _ => simp [Label.worth, Label.injects]

/-! ## The wiring -/

def wire : Role → Role → Prop
  | .source, .workerA | .source, .workerB | .workerA, .sink | .workerB, .sink => True
  | _, _ => False

theorem wired : Wired system wire fun _ _ => True where
  init := fun _ => trivial
  started := fun _ _ _ => ⟨trivial, fun addr msg hmem => by cases hmem⟩
  handle := by
    rintro role st n -
    refine ⟨trivial, fun addr msg hmem => ?_⟩
    change _ ∈ handle role n at hmem
    cases role with
    | source =>
      simp only [handle, List.mem_cons, Action.send.injEq, List.not_mem_nil, or_false] at hmem
      obtain ⟨rfl, -⟩ | ⟨rfl, -⟩ := hmem <;> trivial
    | workerA | workerB =>
      simp only [handle, List.mem_cons, reduceCtorEq, Action.send.injEq, List.not_mem_nil, or_false,
        false_or] at hmem
      obtain ⟨rfl, -⟩ := hmem
      trivial
    | sink => simp [handle] at hmem

/-- From a worker the way leads to the sink alone. -/
theorem reaches_from_worker {w role : Role} (hw : w = .workerA ∨ w = .workerB)
    (h : Reaches wire w role) : role = w ∨ role = .sink := by
  induction h with
  | refl => exact .inl rfl
  | @tail p q _ hstep ih =>
    rcases ih with rfl | rfl
    · rcases hw with rfl | rfl <;> cases q <;> first | exact .inr rfl | exact absurd hstep id
    · cases q <;> exact absurd hstep id

/-! ## The acceptance test -/

variable {ls : List (Label Role UInt32)} {s : Config Role Unit UInt32 Unit}

/-- A recv is stamped above its emit. -/
theorem clock_le_of_message (h : Run system ls s) (h1 : ls.countP Label.injects ≤ 1)
    {a b : CausalEvent} (ha : a ∈ s.events) (hb : b ∈ s.events) (hab : MessageOrder a b) :
    a.vclock.components ≤ b.vclock.components := by
  have hacc := h.account named
  have hw : recording.count s.events "world" ≤ 1 := by
    have := h.origins named
    omega
  obtain ⟨cur, hcur, -⟩ := (hacc.chronicle hw).history
  have hne : a ≠ b := by
    rintro rfl
    cases hab.1.symm.trans hab.2.1
  exact ((hcur.precedes_iff hacc.issued.sender_unique ha hb hne).mp
    (.single ⟨ha, hb, .inr hab⟩)).le

/-- **The acceptance test of the fan-out, for every run.**  Take a run without a panic, whose one
origin goes to the source and which has been joined.  It records the 14 events the test counts;
every one is valid against the schema; the clock of each recv is not below that of its emit in any
component; and every event of the one worker is concurrent with every event of the other. -/
theorem fanout_accepted (h : Run system ls s) (hmain : FromMain ls)
    (h1 : ls.countP Label.injects = 1) (hq : ∀ l ∈ ls, l.quiet) (hdone : s.runner = .done) :
    (kinds s.events = {("world", .emit)} + cost .source ∧ s.events.length = 14) ∧
    (∀ e ∈ s.events, eventSchema e.toJson = true) ∧
    (∀ a ∈ s.events, ∀ b ∈ s.events, MessageOrder a b →
      a.vclock.components ≤ b.vclock.components) ∧
    (∀ a ∈ s.events, ∀ b ∈ s.events, a.actor = "worker-a" → b.actor = "worker-b" →
      Incomparable a b) := by
  have hkinds : kinds s.events = {("world", .emit)} + cost .source := by
    rw [h.worked priced hq hdone, worth_eq hmain, h1, one_nsmul]
  have hlen : s.events.length = 14 := by
    rw [← card_kinds, hkinds]
    rfl
  have hapart : ¬ Reaches wire .workerA .workerB := fun hreach => by
    rcases reaches_from_worker (.inl rfl) hreach with h | h <;> cases h
  have hapart' : ¬ Reaches wire .workerB .workerA := fun hreach => by
    rcases reaches_from_worker (.inr rfl) hreach with h | h <;> cases h
  exact ⟨⟨hkinds, hlen⟩, h.conforms (by decide),
    fun a ha b hb => clock_le_of_message h h1.le ha hb,
    fun a ha b hb hwa hwb =>
      (h.influenced named wired).incomparable hapart hapart' ha hwa hb hwb⟩

/-- `n` operations of one task. -/
def turns (n : Nat) (role : Role) : List (Label Role UInt32) := List.replicate n (.task role)

/-- `main` to its end. -/
def mainRun : List (Label Role UInt32) :=
  turns 2 .sink ++ turns 2 .workerA ++ turns 2 .workerB ++ turns 2 .source ++
    [.sendExternal .source 1, .external 0, .external 0, .external 0] ++ turns 11 .source ++
    turns 8 .workerA ++ turns 8 .workerB ++ turns 9 .sink ++ [.runner, .runner] ++
    [.sink, .workerA, .workerB, .source].map .abort ++
    [.sink, .workerA, .workerB, .source].map .cancel ++ [.runner]

theorem fanout_accepted_main : ∃ s, Run system mainRun s ∧ s.events.length = 14 ∧
    (∀ e ∈ s.events, eventSchema e.toJson = true) ∧
    ∀ a ∈ s.events, ∀ b ∈ s.events, a.actor = "worker-a" → b.actor = "worker-b" →
      Incomparable a b := by
  have hend : (Transition.exec (step system) mainRun (.init system)).map (fun s => s.runner) =
      some .done := by decide +kernel
  obtain ⟨s, hrun, hdone⟩ := Option.map_eq_some_iff.mp hend
  have hmain : FromMain mainRun := by simp [FromMain, mainRun, turns]
  have hquiet : ∀ l ∈ mainRun, l.quiet := by simp [mainRun, turns, Label.quiet]
  obtain ⟨⟨-, hlen⟩, hschema, -, hspacelike⟩ :=
    fanout_accepted hrun hmain (by decide) hquiet hdone
  exact ⟨s, hrun, hlen, hschema, hspacelike⟩

end Lichtung.Prod.Fanout
