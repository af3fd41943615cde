import Lichtung.Log
import Lichtung.Lib.Transition

/-!
# The log writer task

Model of `spawn_log_writer` (`crates/lichtung-prod/src/logwriter.rs`): the `BufWriter` it writes
through, and the task as a transition system in which events are sent, and the last sender dropped,
between any two of its turns.

Principal results: `LogWriter.step_spec` (what a step can do when the sink has no errors),
`LogWriter.run_accounted` (every event sent is in the sink, the buffer or the queue, once and in
order), `LogWriter.finishes` (once the channel is closed the task ends),
`LogWriter.flushed_while_waiting` and `log_round_trips`.
-/

namespace Lichtung.Prod

open Transition

/-! ## The buffered writer -/

/-- `BufWriter<W>`. -/
structure BufWriter (W : Type) where
  inner : W
  buf : List UInt8

namespace BufWriter

variable {W : Type} (sink : Sink W) (cap : Nat)

def new (w : W) : BufWriter W := ⟨w, []⟩

def flushBuf (bw : BufWriter W) : Option (BufWriter W) :=
  (sink.writeAll bw.inner bw.buf).map fun w => ⟨w, []⟩

/-- `write_all`: what fits is buffered, and what is longer than the whole buffer goes past it. -/
def writeAll (bw : BufWriter W) (bs : List UInt8) : Option (BufWriter W) :=
  if bs.length < cap - bw.buf.length then some { bw with buf := bw.buf ++ bs }
  else
    (if cap - bw.buf.length < bs.length then bw.flushBuf sink else some bw).bind fun bw =>
      if cap ≤ bs.length then (sink.writeAll bw.inner bs).map fun w => { bw with inner := w }
      else some { bw with buf := bw.buf ++ bs }

def flush (bw : BufWriter W) : Option (BufWriter W) := do
  let bw ← bw.flushBuf sink
  (sink.flush bw.inner).map fun w => { bw with inner := w }

/-- What was written to the writer. -/
def bytes (contents : W → List UInt8) (bw : BufWriter W) : List UInt8 :=
  contents bw.inner ++ bw.buf

variable {sink} {contents : W → List UInt8}

theorem flushBuf_ok (hsink : sink.NoError contents) (bw : BufWriter W) :
    ∃ bw', bw.flushBuf sink = some bw' ∧ bw'.buf = [] ∧ contents bw'.inner = bw.bytes contents := by
  obtain ⟨w, hw, hc⟩ := hsink.writeAll bw.inner bw.buf
  exact ⟨⟨w, []⟩, by rw [flushBuf, hw, Option.map_some], rfl, hc⟩

theorem flush_ok (hsink : sink.NoError contents) (bw : BufWriter W) :
    ∃ bw', bw.flush sink = some bw' ∧ bw'.buf = [] ∧ contents bw'.inner = bw.bytes contents := by
  obtain ⟨bw₁, h1, hbuf, hc1⟩ := flushBuf_ok hsink bw
  obtain ⟨w, hw, hc⟩ := hsink.flush bw₁.inner
  refine ⟨{ bw₁ with inner := w }, ?_, hbuf, hc.trans hc1⟩
  rw [flush, h1]
  exact congrArg (Option.map _) hw

/-- **Everything written is kept, in order.** -/
theorem writeAll_ok (hsink : sink.NoError contents) (bw : BufWriter W) (bs : List UInt8) :
    ∃ bw', bw.writeAll sink cap bs = some bw' ∧ bw'.bytes contents = bw.bytes contents ++ bs := by
  unfold writeAll
  split
  · exact ⟨_, rfl, (List.append_assoc ..).symm⟩
  · rename_i hfit
    -- what goes past the buffer finds it empty
    obtain ⟨bw₁, h1, hc1, hempty⟩ : ∃ bw₁,
        (if cap - bw.buf.length < bs.length then bw.flushBuf sink else some bw) = some bw₁ ∧
          bw₁.bytes contents = bw.bytes contents ∧ (cap ≤ bs.length → bw₁.buf = [] ∨ bs = []) := by
      split
      · obtain ⟨bw₁, h1, hbuf, hc1⟩ := flushBuf_ok hsink bw
        exact ⟨bw₁, h1, by rw [bytes, hbuf, List.append_nil, hc1], fun _ => .inl hbuf⟩
      · refine ⟨bw, rfl, rfl, fun hcap => ?_⟩
        rw [← List.length_eq_zero_iff, ← List.length_eq_zero_iff]
        omega
    rw [h1, Option.bind_some]
    split
    · rename_i hcap
      obtain ⟨w, hw, hc⟩ := hsink.writeAll bw₁.inner bs
      refine ⟨{ bw₁ with inner := w }, by rw [hw, Option.map_some], ?_⟩
      rw [← hc1, bytes, bytes, hc]
      rcases hempty hcap with hbuf | hbs
      · rw [hbuf, List.append_nil, List.append_nil]
      · rw [hbs, List.append_nil, List.append_nil]
    · exact ⟨_, rfl, by rw [← hc1, bytes, bytes, List.append_assoc]⟩

end BufWriter

/-! ## The task -/

section WriteOne

variable {W : Type} (json : SerdeJson) (sink : Sink W) (cap : Nat)

/-- `write_one`: an I/O error under `to_writer` is a `serde_json` error. -/
def writeOne (bw : BufWriter W) (ev : CausalEvent) : Except LogError (BufWriter W) := do
  let bw ← orError .json ((json.toWriter ev.toJson).foldlM (BufWriter.writeAll sink cap) bw)
  orError .io (bw.writeAll sink cap [10])

end WriteOne

namespace LogWriter

/-- Where the task is: at `rx.recv().await`, at `rx.try_recv()`, or returned. -/
inductive Pc where
  | recv
  | tryRecv
  | done (r : Except LogError Nat)

def Pc.returned : Pc → Bool
  | .done _ => true
  | _ => false

theorem Pc.returned_iff {pc : Pc} : pc.returned = true ↔ ∃ r, pc = .done r := by
  cases pc <;> simp [Pc.returned]

inductive Label where
  | send (ev : CausalEvent)
  /-- The last sender is dropped. -/
  | close
  /-- The task takes its next event, flushes, or returns. -/
  | turn

end LogWriter

/-- The task with its channel. -/
structure LogWriter (W : Type) where
  queue : List CausalEvent
  closed : Bool
  bw : BufWriter W
  written : Nat
  pc : LogWriter.Pc

namespace LogWriter

variable {W : Type}

def init (w : W) : LogWriter W := ⟨[], false, .new w, 0, .recv⟩

section Step

variable (json : SerdeJson) (sink : Sink W) (cap : Nat) (s : LogWriter W)

def write (ev : CausalEvent) (queue : List CausalEvent) : LogWriter W :=
  match writeOne json sink cap s.bw ev with
  | .ok bw => { s with queue := queue, bw := bw, written := s.written + 1, pc := .tryRecv }
  | .error err => { s with queue := queue, pc := .done (.error err) }

/-- `bw.flush()?`, and on to `pc`. -/
def flush (pc : Pc) : LogWriter W :=
  match orError .io (s.bw.flush sink) with
  | .ok bw => { s with bw := bw, pc := pc }
  | .error err => { s with pc := .done (.error err) }

def turn : Option (LogWriter W) :=
  match s.pc, s.queue with
  | .recv, ev :: queue | .tryRecv, ev :: queue => some (s.write json sink cap ev queue)
  | .tryRecv, [] => some (s.flush sink .recv)
  | .recv, [] => if s.closed then some (s.flush sink (.done (.ok s.written))) else none
  | .done _, _ => none

/-- One step; a send fails when the senders are gone or the task has returned. -/
def step : Label → Option (LogWriter W)
  | .send ev =>
    if s.closed || s.pc.returned then none else some { s with queue := s.queue ++ [ev] }
  | .close => if s.closed then none else some { s with closed := true }
  | .turn => s.turn json sink cap

end Step

/-- The events that were sent. -/
def sent (ls : List Label) : List CausalEvent :=
  ls.filterMap fun
    | .send ev => some ev
    | _ => none

theorem sent_append (ls ls' : List Label) : sent (ls ++ ls') = sent ls ++ sent ls' :=
  List.filterMap_append

theorem sent_turns : ∀ k : Nat, sent (List.replicate k .turn) = []
  | 0 => rfl
  | k + 1 => sent_turns k

/-- The bytes written or still to be written. -/
def bytes (json : SerdeJson) (contents : W → List UInt8) (s : LogWriter W) : List UInt8 :=
  s.bw.bytes contents ++ logBytes json s.queue

theorem bytes_of_flushed {json : SerdeJson} {contents : W → List UInt8} {s : LogWriter W}
    (hq : s.queue = []) (hbuf : s.bw.buf = []) : s.bytes json contents = contents s.bw.inner := by
  simp [bytes, BufWriter.bytes, hq, hbuf]

section Spec

variable {json : SerdeJson} {sink : Sink W} {contents : W → List UInt8} {cap : Nat}

theorem pieces_ok (cap : Nat) (hsink : sink.NoError contents) : ∀ (pieces : List (List UInt8))
    (bw : BufWriter W), ∃ bw', pieces.foldlM (BufWriter.writeAll sink cap) bw = some bw' ∧
      bw'.bytes contents = bw.bytes contents ++ pieces.flatten
  | [], bw => ⟨bw, rfl, (List.append_nil _).symm⟩
  | bs :: pieces, bw => by
    obtain ⟨bw₁, h1, hc1⟩ := BufWriter.writeAll_ok cap hsink bw bs
    obtain ⟨bw', h', hc'⟩ := pieces_ok cap hsink pieces bw₁
    refine ⟨bw', ?_, by rw [hc', hc1, List.flatten_cons, List.append_assoc]⟩
    rw [List.foldlM_cons, h1]
    exact h'

theorem writeOne_ok (cap : Nat) (hjson : json.Lawful) (hsink : sink.NoError contents)
    (bw : BufWriter W) (ev : CausalEvent) : ∃ bw', writeOne json sink cap bw ev = .ok bw' ∧
      bw'.bytes contents = bw.bytes contents ++ logBytes json [ev] := by
  obtain ⟨bw₁, h1, hc1⟩ := pieces_ok cap hsink (json.toWriter ev.toJson) bw
  obtain ⟨bw', h', hc'⟩ := BufWriter.writeAll_ok cap hsink bw₁ [10]
  refine ⟨bw', ?_, ?_⟩
  · rw [writeOne, h1, orError_some]
    show orError .io (bw₁.writeAll sink cap [10]) = _
    rw [h', orError_some]
  · rw [hc', hc1, hjson.pieces, List.append_assoc, logBytes_cons]
    rfl

/-- What a step does when the sink has no errors. -/
inductive Change (json : SerdeJson) (contents : W → List UInt8) (s : LogWriter W) :
    Label → LogWriter W → Prop
  | send {ev : CausalEvent} (hpc : s.pc.returned = false) :
      Change json contents s (.send ev) { s with queue := s.queue ++ [ev] }
  | close : Change json contents s .close { s with closed := true }
  | write {ev : CausalEvent} {queue : List CausalEvent} {bw : BufWriter W}
      (hq : s.queue = ev :: queue)
      (hbw : bw.bytes contents = s.bw.bytes contents ++ logBytes json [ev]) :
      Change json contents s .turn
        { s with queue := queue, bw := bw, written := s.written + 1, pc := .tryRecv }
  | flush {bw : BufWriter W} (hpc : s.pc = .tryRecv) (hq : s.queue = []) (hbuf : bw.buf = [])
      (hbw : contents bw.inner = s.bw.bytes contents) :
      Change json contents s .turn { s with bw := bw, pc := .recv }
  | finish {bw : BufWriter W} (hpc : s.pc = .recv) (hq : s.queue = []) (hbuf : bw.buf = [])
      (hbw : contents bw.inner = s.bw.bytes contents) :
      Change json contents s .turn { s with bw := bw, pc := .done (.ok s.written) }

theorem flush_spec (hsink : sink.NoError contents) (s : LogWriter W) (pc : Pc) :
    ∃ bw, s.flush sink pc = { s with bw := bw, pc := pc } ∧ bw.buf = [] ∧
      contents bw.inner = s.bw.bytes contents := by
  obtain ⟨bw, hbw, hbuf, hc⟩ := BufWriter.flush_ok hsink s.bw
  exact ⟨bw, by rw [flush, hbw, orError_some], hbuf, hc⟩

theorem write_spec (cap : Nat) (hjson : json.Lawful) (hsink : sink.NoError contents)
    (s : LogWriter W) (ev : CausalEvent) (queue : List CausalEvent) :
    ∃ bw, s.write json sink cap ev queue =
        { s with queue := queue, bw := bw, written := s.written + 1, pc := .tryRecv } ∧
      bw.bytes contents = s.bw.bytes contents ++ logBytes json [ev] := by
  obtain ⟨bw, hbw, hc⟩ := writeOne_ok cap hjson hsink s.bw ev
  exact ⟨bw, by rw [write, hbw], hc⟩

theorem turn_spec (hjson : json.Lawful) (hsink : sink.NoError contents) {s s' : LogWriter W}
    (h : s.turn json sink cap = some s') : Change json contents s .turn s' := by
  have hwrite : ∀ {ev queue}, s.queue = ev :: queue → s.write json sink cap ev queue = s' →
      Change json contents s .turn s' := by
    rintro ev queue hq rfl
    obtain ⟨bw, heq, hbw⟩ := write_spec cap hjson hsink s ev queue
    rw [heq]
    exact .write hq hbw
  unfold turn at h
  split at h
  · exact hwrite ‹_› (Option.some.inj h)
  · exact hwrite ‹_› (Option.some.inj h)
  · cases h
    obtain ⟨bw, heq, hbuf, hbw⟩ := flush_spec hsink s .recv
    rw [heq]
    exact .flush ‹_› ‹_› hbuf hbw
  · split at h
    · cases h
      obtain ⟨bw, heq, hbuf, hbw⟩ := flush_spec hsink s (.done (.ok s.written))
      rw [heq]
      exact .finish ‹_› ‹_› hbuf hbw
    · cases h
  · cases h

/-- **What a step can do.** -/
theorem step_spec (hjson : json.Lawful) (hsink : sink.NoError contents) {s s' : LogWriter W}
    {l : Label} (h : s.step json sink cap l = some s') : Change json contents s l s' := by
  cases l with
  | send ev =>
    simp only [step] at h
    split at h
    · cases h
    · rename_i hpc
      cases h
      rw [Bool.or_eq_true, not_or, Bool.not_eq_true, Bool.not_eq_true] at hpc
      exact .send hpc.2
  | close =>
    simp only [step] at h
    split at h
    · cases h
    · cases h
      exact .close
  | turn => exact turn_spec hjson hsink h

/-- **Every event sent is written or queued, once and in order.** -/
theorem Change.accounted {s s' : LogWriter W} {l : Label} (h : Change json contents s l s') :
    s'.bytes json contents = s.bytes json contents ++ logBytes json (sent [l]) ∧
      s'.written + s'.queue.length = s.written + s.queue.length + (sent [l]).length := by
  cases h with
  | @send ev =>
    refine ⟨?_, ?_⟩
    · show s.bw.bytes contents ++ logBytes json (s.queue ++ [ev]) = _
      rw [logBytes_append, ← List.append_assoc]
      rfl
    · show s.written + (s.queue ++ [ev]).length = s.written + s.queue.length + 1
      rw [List.length_append, List.length_singleton, Nat.add_assoc]
  | close => exact ⟨(List.append_nil _).symm, rfl⟩
  | @write ev queue bw hq hbw =>
    refine ⟨?_, ?_⟩
    · show bw.bytes contents ++ logBytes json queue = (s.bw.bytes contents ++ _) ++ []
      rw [hbw, hq, List.append_nil, List.append_assoc, ← logBytes_append, List.singleton_append]
    · show s.written + 1 + queue.length = s.written + s.queue.length + 0
      rw [hq, List.length_cons]
      omega
  | @flush bw hpc hq hbuf hbw =>
    refine ⟨?_, rfl⟩
    show bw.bytes contents ++ logBytes json s.queue = (s.bw.bytes contents ++ _) ++ []
    rw [BufWriter.bytes, hbuf, List.append_nil, List.append_nil, hbw]
  | @finish bw hpc hq hbuf hbw =>
    refine ⟨?_, rfl⟩
    show bw.bytes contents ++ logBytes json s.queue = (s.bw.bytes contents ++ _) ++ []
    rw [BufWriter.bytes, hbuf, List.append_nil, List.append_nil, hbw]

/-- While the task waits the buffer is empty, and it returns the count of what it wrote. -/
structure Settled (s : LogWriter W) : Prop where
  recv : s.pc = .recv → s.bw.buf = []
  done : ∀ r, s.pc = .done r → r = .ok s.written ∧ s.queue = [] ∧ s.bw.buf = []

theorem Change.settled {s s' : LogWriter W} {l : Label} (h : Change json contents s l s')
    (hs : s.Settled) : s'.Settled := by
  cases h with
  | send hpc => exact ⟨hs.recv, fun r hr => by rw [show s.pc = .done r from hr] at hpc; cases hpc⟩
  | close => exact ⟨hs.recv, hs.done⟩
  | write hq hbw => exact ⟨(by simp), by simp⟩
  | flush hpc hq hbuf hbw => exact ⟨fun _ => hbuf, by simp⟩
  | finish hpc hq hbuf hbw =>
    refine ⟨by simp, fun r hr => ?_⟩
    cases hr
    exact ⟨rfl, hq, hbuf⟩

/-! ### Runs -/

theorem run_accounted (hjson : json.Lawful) (hsink : sink.NoError contents) :
    ∀ {ls : List Label} {s s' : LogWriter W}, Run (step json sink cap) s ls s' →
      s'.bytes json contents = s.bytes json contents ++ logBytes json (sent ls) ∧
        s'.written + s'.queue.length = s.written + s.queue.length + (sent ls).length
  | [], s, _, h => by
    cases h
    exact ⟨(List.append_nil _).symm, rfl⟩
  | l :: ls, s, s', h => by
    obtain ⟨s₁, h1, hrun⟩ := Run.cons_iff.mp h
    obtain ⟨hb1, hn1⟩ := (step_spec hjson hsink h1).accounted
    obtain ⟨hb, hn⟩ := run_accounted hjson hsink hrun
    have hsent : sent (l :: ls) = sent [l] ++ sent ls := sent_append [l] ls
    rw [hb, hb1, hn, hn1, hsent, logBytes_append, List.append_assoc, List.length_append]
    exact ⟨rfl, Nat.add_assoc ..⟩

theorem run_settled (hjson : json.Lawful) (hsink : sink.NoError contents) {ls : List Label}
    {w : W} {s : LogWriter W} (h : Run (step json sink cap) (init w) ls s) : s.Settled :=
  Run.induct (fun hstep => (step_spec hjson hsink hstep).settled) h ⟨fun _ => rfl, by simp [init]⟩

/-- The turns left once the channel is closed. -/
def turnsLeft (s : LogWriter W) : Nat :=
  match s.pc with
  | .recv => 2 * s.queue.length + 1
  | .tryRecv => 2 * s.queue.length + 2
  | .done _ => 0

theorem turnsLeft_of_not_returned {s : LogWriter W} (h : s.pc.returned = false) :
    2 * s.queue.length + 1 ≤ s.turnsLeft := by
  unfold turnsLeft
  split
  · exact le_rfl
  · exact Nat.le_succ _
  · rename_i hpc
    rw [hpc] at h
    cases h

/-- **A closed channel leaves the task finitely many turns.** -/
theorem turn_of_closed (cap : Nat) (hjson : json.Lawful) (hsink : sink.NoError contents)
    {s : LogWriter W} (hclosed : s.closed = true) (hpc : s.pc.returned = false) :
    ∃ s', s.step json sink cap .turn = some s' ∧ s'.closed = true ∧
      s'.turnsLeft < s.turnsLeft := by
  obtain ⟨s', h⟩ : ∃ s', s.step json sink cap .turn = some s' := by
    cases hp : s.pc with
    | done r => rw [hp] at hpc; cases hpc
    | recv => cases hq : s.queue <;> simp [step, turn, hp, hq, hclosed]
    | tryRecv => cases hq : s.queue <;> simp [step, turn, hp, hq]
  have hleft := turnsLeft_of_not_returned hpc
  refine ⟨s', h, ?_⟩
  cases step_spec hjson hsink h with
  | @write ev queue bw hq hbw =>
    refine ⟨hclosed, ?_⟩
    show 2 * queue.length + 2 < s.turnsLeft
    rw [hq, List.length_cons] at hleft
    omega
  | flush hp hq hbuf hbw => exact ⟨hclosed, by simp [turnsLeft, hp, hq]⟩
  | finish hp hq hbuf hbw => exact ⟨hclosed, by simp [turnsLeft, hp, hq]⟩

theorem finishes (hjson : json.Lawful) (hsink : sink.NoError contents) : ∀ (n : Nat)
    {s : LogWriter W}, s.turnsLeft ≤ n → s.closed = true →
      ∃ k s', Run (step json sink cap) s (List.replicate k .turn) s' ∧ s'.pc.returned = true := by
  intro n
  induction n with
  | zero =>
    intro s hn hclosed
    refine ⟨0, s, .nil s, ?_⟩
    by_contra hpc
    have := turnsLeft_of_not_returned (by simpa using hpc)
    omega
  | succ n ih =>
    intro s hn hclosed
    by_cases hpc : s.pc.returned = true
    · exact ⟨0, s, .nil s, hpc⟩
    · obtain ⟨s₁, h1, hclosed1, hlt⟩ :=
        turn_of_closed cap hjson hsink hclosed (by simpa using hpc)
      obtain ⟨k, s', hrun, hdone⟩ := ih (by omega) hclosed1
      exact ⟨k + 1, s', .cons h1 hrun, hdone⟩

/-- A task that has returned wrote exactly the events that were sent. -/
theorem returned (hjson : json.Lawful) (hsink : sink.NoError contents) {ls : List Label} {w : W}
    {s : LogWriter W} (h : Run (step json sink cap) (init w) ls s) {r : Except LogError Nat}
    (hr : s.pc = .done r) : r = .ok (sent ls).length ∧
      contents s.bw.inner = contents w ++ logBytes json (sent ls) := by
  obtain ⟨hb, hn⟩ := run_accounted hjson hsink h
  obtain ⟨rfl, hq, hbuf⟩ := (run_settled hjson hsink h).done r hr
  constructor
  · rw [hq] at hn
    simpa [init] using hn
  · rwa [bytes_of_flushed hq hbuf, bytes_of_flushed rfl rfl] at hb

/-- While the task waits with nothing queued, everything sent is in the sink. -/
theorem flushed_while_waiting (hjson : json.Lawful) (hsink : sink.NoError contents)
    {ls : List Label} {w : W} {s : LogWriter W} (h : Run (step json sink cap) (init w) ls s)
    (hpc : s.pc = .recv) (hq : s.queue = []) :
    contents s.bw.inner = contents w ++ logBytes json (sent ls) := by
  have hb := (run_accounted hjson hsink h).1
  have hbuf := (run_settled hjson hsink h).recv hpc
  rwa [bytes_of_flushed hq hbuf, bytes_of_flushed rfl rfl] at hb

end Spec

end LogWriter

/-! ## The log as a whole -/

/-- **The log round-trips and its two writers agree**: however events are sent to the writer task,
what it has written when it returns is what `write_events` writes, its count is their number, and
they read back, blank lines between them or not; and a closed channel makes it return. -/
theorem log_round_trips {W : Type} {json : SerdeJson} {sink : Sink W} {contents : W → List UInt8}
    (hjson : json.Lawful) (hsink : sink.NoError contents) {w₀ : W} (hw₀ : contents w₀ = [])
    (cap : Nat) {events : List CausalEvent} (hevents : ∀ e ∈ events, e.Encodable) :
    ∃ w, writeEvents json sink events w₀ = .ok w ∧
      (∀ ls s, Run (LogWriter.step json sink cap) (.init w₀) ls s → LogWriter.sent ls = events →
        (∀ r, s.pc = .done r →
          r = .ok events.length ∧ contents s.bw.inner = contents w) ∧
        (s.closed = true → ∃ k s', s'.pc = .done (.ok events.length) ∧
          Run (LogWriter.step json sink cap) s (List.replicate k .turn) s')) ∧
      readEvents json (contents w) = .ok events ∧
      ∀ padded, Lines.Padded isBlank (contents w) padded → readEvents json padded = .ok events := by
  obtain ⟨w, hw, hc⟩ := writeEvents_ok hsink events w₀
  rw [hw₀, List.nil_append] at hc
  refine ⟨w, hw, fun ls s hrun hsent => ⟨fun r hr => ?_, fun hclosed => ?_⟩, ?_, ?_⟩
  · obtain ⟨hcount, hbytes⟩ := LogWriter.returned hjson hsink hrun hr
    rw [hsent, hw₀, List.nil_append] at hbytes
    rw [hsent] at hcount
    exact ⟨hcount, hbytes.trans hc.symm⟩
  · obtain ⟨k, s', hk, hdone⟩ := LogWriter.finishes hjson hsink _ le_rfl hclosed
    obtain ⟨r, hr⟩ := LogWriter.Pc.returned_iff.mp hdone
    obtain ⟨hcount, -⟩ := LogWriter.returned hjson hsink (Run.append_iff.mpr ⟨s, hrun, hk⟩) hr
    rw [LogWriter.sent_append, LogWriter.sent_turns, List.append_nil, hsent] at hcount
    exact ⟨k, s', hcount ▸ hr, hk⟩
  · rw [hc]
    refine readEvents_padded hjson (Lines.Padded.refl ?_) hevents rfl
    intro l hl
    obtain ⟨e, -, rfl⟩ := List.mem_map.mp hl
    exact eventLine_bytes hjson e
  · intro padded hpadded
    exact readEvents_padded hjson hpadded hevents hc

/-- A sink that is a list of bytes. -/
def listSink : Sink (List UInt8) := ⟨fun w bs => some (w ++ bs), some⟩

theorem listSink_noError : listSink.NoError id :=
  ⟨fun w bs => ⟨w ++ bs, rfl, rfl⟩, fun w => ⟨w, rfl, rfl⟩⟩

/-- An event with text to escape, and one without optional fields. -/
def escapedEvents : List CausalEvent :=
  [{ id := "a:1"
     actor := "a"
     seq := 1
     op := .emit
     vclock := Std.ExtTreeMap.ofList [("a", 1)]
     lamport := 1
     msgId := some "m\n\"1\\"
     src := some "a"
     dst := some ""
     value := none
     payloadHash := none },
   { id := "b:1"
     actor := "b"
     seq := 1
     op := .compute
     vclock := ∅
     lamport := 2 ^ 64 - 1
     msgId := none
     src := none
     dst := none
     value := none
     payloadHash := none }]

theorem escapedEvents_encodable : ∀ e ∈ escapedEvents, e.Encodable := by
  simp only [escapedEvents, List.forall_mem_cons, List.not_mem_nil, false_imp_iff, implies_true,
    and_true]
  refine ⟨⟨by decide, by decide, ?_, by simp⟩, ⟨by decide, by decide, by decide, by simp⟩⟩
  decide

theorem log_round_trips_escaped :
    ∃ w, writeEvents compactJson listSink escapedEvents [] = .ok w ∧
      readEvents compactJson w = .ok escapedEvents ∧
      ∃ k s', s'.pc = .done (.ok 2) ∧
        Run (LogWriter.step compactJson listSink 8192) (.init [])
          (escapedEvents.map .send ++ [.close] ++ List.replicate k .turn) s' := by
  obtain ⟨w, hw, hwriter, hread, -⟩ := log_round_trips compactJson_lawful listSink_noError
    (show id ([] : List UInt8) = [] from rfl) 8192 escapedEvents_encodable
  refine ⟨w, hw, hread, ?_⟩
  obtain ⟨s, hrun, hclosed⟩ : ∃ s, Run (LogWriter.step compactJson listSink 8192) (.init [])
      (escapedEvents.map LogWriter.Label.send ++ [LogWriter.Label.close]) s ∧ s.closed = true :=
    ⟨_, rfl, rfl⟩
  obtain ⟨k, s', hdone, hk⟩ := (hwriter _ s hrun rfl).2 hclosed
  exact ⟨k, s', hdone, Run.append_iff.mpr ⟨s, hrun, hk⟩⟩

end Lichtung.Prod
