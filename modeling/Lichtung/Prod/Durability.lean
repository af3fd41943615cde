import Lichtung.Prod.LogWriter

/-!
# The log writer over a sink that can fail

A sink is honest when an operation that reports success has appended what it was given; any
operation may fail.  Over an honest sink a turn of the writer task does what it does over one without
errors, or the task returns an error.

Principal results: `LogWriter.turn_honest` and `LogWriter.Holds.change` (the events sent are in the
sink, the buffer or the queue, in order).
-/

namespace Lichtung

variable {W : Type}

/-- A sink that appends what it reports written. -/
structure Sink.Honest (sink : Sink W) (contents : W → List UInt8) : Prop where
  writeAll : ∀ {w bs w'}, sink.writeAll w bs = some w' → contents w' = contents w ++ bs
  flush : ∀ {w w'}, sink.flush w = some w' → contents w' = contents w

theorem Sink.NoError.honest {sink : Sink W} {contents : W → List UInt8}
    (h : sink.NoError contents) : sink.Honest contents where
  writeAll := by
    intro w bs w' hw'
    obtain ⟨w₁, hw₁, hc⟩ := h.writeAll w bs
    cases hw₁.symm.trans hw'
    exact hc
  flush := by
    intro w w' hw'
    obtain ⟨w₁, hw₁, hc⟩ := h.flush w
    cases hw₁.symm.trans hw'
    exact hc

namespace Prod

/-! ## The buffered writer -/

namespace BufWriter

variable {sink : Sink W} {contents : W → List UInt8} {cap : Nat} {bw bw' : BufWriter W}

theorem flushBuf_honest (hsink : sink.Honest contents) (h : bw.flushBuf sink = some bw') :
    bw'.buf = [] ∧ contents bw'.inner = bw.bytes contents := by
  obtain ⟨w, hw, rfl⟩ := Option.map_eq_some_iff.mp h
  exact ⟨rfl, hsink.writeAll hw⟩

theorem flush_honest (hsink : sink.Honest contents) (h : bw.flush sink = some bw') :
    bw'.buf = [] ∧ contents bw'.inner = bw.bytes contents := by
  obtain ⟨bw₁, h1, h2⟩ := Option.bind_eq_some_iff.mp h
  obtain ⟨hbuf, hc⟩ := flushBuf_honest hsink h1
  obtain ⟨w, hw, rfl⟩ := Option.map_eq_some_iff.mp h2
  exact ⟨hbuf, (hsink.flush hw).trans hc⟩

/-- **What is reported written is kept, in order.** -/
theorem writeAll_honest (hsink : sink.Honest contents) {bs : List UInt8}
    (h : bw.writeAll sink cap bs = some bw') : bw'.bytes contents = bw.bytes contents ++ bs := by
  unfold writeAll at h
  split at h
  · cases h
    exact (List.append_assoc ..).symm
  · obtain ⟨bw₁, h1, h2⟩ := Option.bind_eq_some_iff.mp h
    -- what goes past the buffer finds it empty
    obtain ⟨hc1, hempty⟩ : bw₁.bytes contents = bw.bytes contents ∧
        (cap ≤ bs.length → bw₁.buf = [] ∨ bs = []) := by
      split at h1
      · obtain ⟨hbuf, hc1⟩ := flushBuf_honest hsink h1
        exact ⟨by rw [bytes, hbuf, List.append_nil, hc1], fun _ => .inl hbuf⟩
      · cases h1
        refine ⟨rfl, fun hcap => ?_⟩
        rw [← List.length_eq_zero_iff, ← List.length_eq_zero_iff]
        omega
    split at h2
    · rename_i hcap
      obtain ⟨w, hw, rfl⟩ := Option.map_eq_some_iff.mp h2
      rw [← hc1, bytes, bytes, hsink.writeAll hw]
      rcases hempty hcap with hbuf | hbs
      · rw [hbuf, List.append_nil, List.append_nil]
      · rw [hbs, List.append_nil, List.append_nil]
    · cases h2
      rw [← hc1, bytes, bytes, List.append_assoc]

end BufWriter

/-! ## The task -/

namespace LogWriter

/-- The task returned an error. -/
def Pc.failed : Pc → Prop
  | .done (.error _) => True
  | _ => False

theorem Pc.returned_of_failed {pc : Pc} (h : pc.failed) : pc.returned = true := by
  cases pc with
  | done r => rfl
  | recv | tryRecv => exact h.elim

section Spec

variable {json : SerdeJson} {sink : Sink W} {contents : W → List UInt8} {cap : Nat}
  {s s' : LogWriter W}

theorem pieces_honest (hsink : sink.Honest contents) : ∀ {pieces : List (List UInt8)}
    {bw bw' : BufWriter W}, pieces.foldlM (BufWriter.writeAll sink cap) bw = some bw' →
      bw'.bytes contents = bw.bytes contents ++ pieces.flatten
  | [], bw, _, h => by
    cases h
    exact (List.append_nil _).symm
  | bs :: pieces, bw, bw', h => by
    rw [List.foldlM_cons] at h
    obtain ⟨bw₁, h1, h2⟩ := Option.bind_eq_some_iff.mp h
    rw [pieces_honest hsink h2, BufWriter.writeAll_honest hsink h1, List.flatten_cons,
      List.append_assoc]

theorem writeOne_honest (hjson : json.Lawful) (hsink : sink.Honest contents)
    {bw bw' : BufWriter W} {ev : CausalEvent} (h : writeOne json sink cap bw ev = .ok bw') :
    bw'.bytes contents = bw.bytes contents ++ logBytes json [ev] := by
  unfold writeOne at h
  cases h1 : (json.toWriter ev.toJson).foldlM (BufWriter.writeAll sink cap) bw with
  | none => rw [h1] at h; cases h
  | some bw₁ =>
    rw [h1] at h
    have h2 : bw₁.writeAll sink cap [10] = some bw' := orError_eq_ok.mp h
    rw [BufWriter.writeAll_honest hsink h2, pieces_honest hsink h1, hjson.pieces,
      List.append_assoc, logBytes_cons]
    rfl

theorem turn_honest (hjson : json.Lawful) (hsink : sink.Honest contents)
    (h : s.turn json sink cap = some s') : Change json contents s .turn s' ∨ s'.pc.failed := by
  have hwrite : ∀ {ev queue}, s.queue = ev :: queue → s.write json sink cap ev queue = s' →
      Change json contents s .turn s' ∨ s'.pc.failed := by
    rintro ev queue hq rfl
    unfold write
    split
    · rename_i bw hbw
      exact .inl (.write hq (writeOne_honest hjson hsink hbw))
    · exact .inr trivial
  have hflush : ∀ {bw : BufWriter W}, orError .io (s.bw.flush sink) = .ok bw →
      bw.buf = [] ∧ contents bw.inner = s.bw.bytes contents := fun hbw =>
    BufWriter.flush_honest hsink (orError_eq_ok.mp hbw)
  unfold turn at h
  split at h
  · exact hwrite ‹_› (Option.some.inj h)
  · exact hwrite ‹_› (Option.some.inj h)
  · cases h
    unfold flush
    split
    · rename_i bw hbw
      exact .inl (.flush ‹_› ‹_› (hflush hbw).1 (hflush hbw).2)
    · exact .inr trivial
  · split at h
    · cases h
      unfold flush
      split
      · rename_i bw hbw
        exact .inl (.finish ‹_› ‹_› (hflush hbw).1 (hflush hbw).2)
      · exact .inr trivial
    · cases h
  · cases h

/-- The task takes no more turns once it has returned. -/
theorem turn_of_done {r : Except LogError Nat} (h : s.pc = .done r) :
    s.turn json sink cap = none := by
  unfold turn
  rw [h]

/-- A turn leaves the senders alone. -/
theorem turn_closed (h : s.turn json sink cap = some s') : s'.closed = s.closed := by
  have hwrite : ∀ {ev queue}, s.write json sink cap ev queue = s' → s'.closed = s.closed := by
    rintro ev queue rfl
    unfold write
    split <;> rfl
  have hflush : ∀ {pc}, s.flush sink pc = s' → s'.closed = s.closed := by
    rintro pc rfl
    unfold flush
    split <;> rfl
  unfold turn at h
  split at h
  · exact hwrite (Option.some.inj h)
  · exact hwrite (Option.some.inj h)
  · exact hflush (Option.some.inj h)
  · split at h
    · exact hflush (Option.some.inj h)
    · cases h
  · cases h

/-- Only a closed channel makes the task return its count. -/
theorem turn_returned {n : Nat} (h : s.turn json sink cap = some s')
    (hn : s'.pc = .done (.ok n)) : s'.closed = true := by
  have hclosing := turn_closed h
  have hwrite : ∀ {ev queue}, s.write json sink cap ev queue = s' → False := by
    rintro ev queue rfl
    unfold write at hn
    split at hn <;> cases hn
  unfold turn at h
  split at h
  · exact (hwrite (Option.some.inj h)).elim
  · exact (hwrite (Option.some.inj h)).elim
  · cases h
    unfold flush at hn
    split at hn <;> cases hn
  · split at h
    · rename_i hclosed
      rw [hclosing]
      exact hclosed
    · cases h
  · cases h

/-! ### What the task holds -/

/-- The events sent are written, buffered or queued, in order: those taken from the queue are
counted and make up the bytes written. -/
structure Holds (json : SerdeJson) (contents : W → List UInt8) (events : List CausalEvent)
    (s : LogWriter W) : Prop where
  taken : ∃ taken, events = taken ++ s.queue ∧ s.written = taken.length ∧
    s.bw.bytes contents = logBytes json taken
  settled : s.Settled

theorem Holds.init {w : W} (hw : contents w = []) : Holds json contents [] (init w) where
  taken := ⟨[], rfl, rfl, by simp [LogWriter.init, BufWriter.bytes, BufWriter.new, hw]⟩
  settled := ⟨fun _ => rfl, by simp [LogWriter.init]⟩

/-- **Every event sent is held, once and in order.** -/
theorem Holds.change {events : List CausalEvent} {l : Label} (h : Holds json contents events s)
    (hc : Change json contents s l s') : Holds json contents (events ++ sent [l]) s' := by
  refine ⟨?_, hc.settled h.settled⟩
  obtain ⟨taken, hev, hcount, hbytes⟩ := h.taken
  have hflushed : ∀ {bw : BufWriter W}, bw.buf = [] → contents bw.inner = s.bw.bytes contents →
      bw.bytes contents = logBytes json taken := by
    intro bw hbuf hbw
    rw [BufWriter.bytes, hbuf, List.append_nil, hbw, hbytes]
  cases hc with
  | @send ev => exact ⟨taken, by rw [hev, List.append_assoc]; rfl, hcount, hbytes⟩
  | close => exact ⟨taken, by rw [hev]; exact List.append_nil _, hcount, hbytes⟩
  | @write ev queue bw hq hbw =>
    refine ⟨taken ++ [ev], ?_, ?_, ?_⟩
    · show events ++ [] = taken ++ [ev] ++ queue
      rw [List.append_nil, hev, hq, List.append_assoc, List.singleton_append]
    · show s.written + 1 = _
      rw [hcount, List.length_append, List.length_singleton]
    · show bw.bytes contents = _
      rw [hbw, hbytes, logBytes_append]
  | flush hpc hq hbuf hbw =>
    exact ⟨taken, by rw [hev]; exact List.append_nil _, hcount, hflushed hbuf hbw⟩
  | finish hpc hq hbuf hbw =>
    exact ⟨taken, by rw [hev]; exact List.append_nil _, hcount, hflushed hbuf hbw⟩

/-- A task that has returned its count wrote everything sent, and flushed it. -/
theorem Holds.returned {events : List CausalEvent} (h : Holds json contents events s) {n : Nat}
    (hn : s.pc = .done (.ok n)) :
    n = events.length ∧ contents s.bw.inner = logBytes json events := by
  obtain ⟨taken, hev, hcount, hbytes⟩ := h.taken
  obtain ⟨hr, hq, hbuf⟩ := h.settled.done _ hn
  rw [hq, List.append_nil] at hev
  rw [BufWriter.bytes, hbuf, List.append_nil] at hbytes
  cases hr
  exact ⟨hev ▸ hcount, hev ▸ hbytes⟩

/-- What is in the sink is a beginning of the log, all but the queue while the task waits. -/
theorem Holds.stored {events : List CausalEvent} (h : Holds json contents events s) :
    contents s.bw.inner <+: logBytes json events ∧
      (s.pc = .recv → ∃ taken, events = taken ++ s.queue ∧
        contents s.bw.inner = logBytes json taken) := by
  obtain ⟨taken, hev, -, hbytes⟩ := h.taken
  refine ⟨?_, fun hpc => ⟨taken, hev, ?_⟩⟩
  · rw [hev, logBytes_append, ← hbytes, BufWriter.bytes, List.append_assoc]
    exact List.prefix_append ..
  · rw [BufWriter.bytes, h.settled.recv hpc, List.append_nil] at hbytes
    exact hbytes

end Spec

end LogWriter

/-! ## A log cut short -/

/-- The bytes of a log cut anywhere are those of its first events and of a torn line. -/
theorem cut_logBytes {json : SerdeJson} (hjson : json.Lawful) {events : List CausalEvent}
    {bs : List UInt8} (h : bs <+: logBytes json events) :
    ∃ n torn, 10 ∉ torn ∧ bs = logBytes json (events.take n) ++ torn ∧
      Lines.whole bs = logBytes json (events.take n) := by
  have hlines : ∀ l ∈ events.map fun e => Lines.bytes (eventLine json e), 10 ∉ l := by
    intro l hl
    obtain ⟨e, -, rfl⟩ := List.mem_map.mp hl
    exact eventLine_bytes hjson e
  obtain ⟨n, torn, htorn, rfl⟩ := Lines.cut_terminated hlines h
  have htake : Lines.terminated ((events.map fun e => Lines.bytes (eventLine json e)).take n) =
      logBytes json (events.take n) := by
    rw [logBytes, List.map_take]
  exact ⟨n, torn, htorn, by rw [htake], by rw [Lines.whole_terminated htorn, htake]⟩

theorem whole_logBytes (json : SerdeJson) (events : List CausalEvent) :
    Lines.whole (logBytes json events) = logBytes json events := by
  have h := Lines.whole_terminated (by simp : (10 : UInt8) ∉ [])
    (events.map fun e => Lines.bytes (eventLine json e))
  rwa [List.append_nil] at h

end Prod

end Lichtung
