import Lichtung.Prod.LogWriter
import Lichtung.Replay.Canonical

/-!
# The artifacts of a replay

Model of the encoding of `PosetJson`, of `write_timeline` and of `write_poset`
(`crates/lichtung-replay/src/engine.rs`), and of the end of `main` in the examples that emit the viz
data: the log is read back, replayed and written as `timeline.jsonl` and `poset.json`.
`ReplayError` takes over each variant of `LogError`, which the two writers keep here.

Principal results: `readPoset_writePoset` (what is read back of `poset.json`), `Replayed.listings_iff`
(of two events either one reaches the other or the pair is listed, once) and `timeline_canonical`
(the timeline file is a canonical form of the log).
-/

namespace Lichtung

open EdgeGraph

/-! ## Writing -/

def Json.strings (l : List String) : Json F64 := .arr (l.map .str)

def Json.pairs (l : List (String × String)) : Json F64 :=
  .arr (l.map fun p => .arr [.str p.1, .str p.2])

/-- `Serialize`. -/
def PosetJson.toJson (p : PosetJson) : Json F64 :=
  .obj [("events", .strings p.events), ("edges", .pairs p.edges), ("concurrent", .pairs p.concurrent)]

section Write

variable {W : Type} (json : SerdeJson) (sink : Sink W) (r : Replayed) (w : W)

/-- `write_timeline`. -/
def Replayed.writeTimeline : Except LogError W := writeEvents json sink r.timeline w

/-- `write_poset`. -/
def Replayed.writePoset : Except LogError W :=
  orError .json ((json.toWriter r.posetJson.toJson).foldlM sink.writeAll w)

/-- The end of `main` in `emit_fanout_viz.rs`, which `unwrap`s: the log is read back and replayed, and
its timeline and poset are written. -/
def emitViz (tl ps : W) (bytes : List UInt8) : Option (Replayed × W × W) := do
  let events ← (readEvents json bytes).toOption
  let replayed ← (replayLog events).toOption
  let tl ← (replayed.writeTimeline json sink tl).toOption
  let ps ← (replayed.writePoset json sink ps).toOption
  some (replayed, tl, ps)

end Write

/-! ## Reading the poset -/

namespace Decode

def strings : Json F64 → Option (List String)
  | .arr vs => vs.mapM string
  | _ => none

def pair : Json F64 → Option (String × String)
  | .arr [a, b] => do some (← string a, ← string b)
  | _ => none

def pairs : Json F64 → Option (List (String × String))
  | .arr vs => vs.mapM pair
  | _ => none

theorem mapM_map {α β : Type} {encode : α → β} {decode : β → Option α}
    (h : ∀ a, decode (encode a) = some a) : ∀ l : List α, (l.map encode).mapM decode = some l
  | [] => rfl
  | a :: l => by
    rw [List.map_cons, List.mapM_cons, h, mapM_map h l]
    rfl

end Decode

/-- What a reader makes of the object in `poset.json`. -/
def PosetJson.ofJson : Json F64 → Option PosetJson
  | .obj ms => do
    let events ← Decode.required (Decode.lookup ms "events") Decode.strings
    let edges ← Decode.required (Decode.lookup ms "edges") Decode.pairs
    let concurrent ← Decode.required (Decode.lookup ms "concurrent") Decode.pairs
    some ⟨events, edges, concurrent⟩
  | _ => none

def readPoset (json : SerdeJson) (bytes : List UInt8) : Option PosetJson :=
  ((Lines.decode bytes).bind json.fromStr).bind PosetJson.ofJson

theorem PosetJson.ofJson_toJson (p : PosetJson) : ofJson p.toJson = some p := by
  have hstring : ∀ s, Decode.string (.str s) = some s := fun _ => rfl
  have hpair : ∀ q : String × String, Decode.pair (.arr [.str q.1, .str q.2]) = some q :=
    fun _ => rfl
  have hevents : Decode.strings (.strings p.events) = some p.events := Decode.mapM_map hstring _
  have hpairs : ∀ l, Decode.pairs (.pairs l) = some l := Decode.mapM_map hpair
  simp [toJson, ofJson, Decode.lookup, Decode.required, hevents, hpairs]

/-- Arrays of strings and of pairs of strings. -/
def Listed : Json F64 → Prop
  | .arr vs => ∀ v ∈ vs, (∃ s, v = .str s) ∨ ∃ a b, v = .arr [.str a, .str b]
  | _ => False

/-- What a reader of `poset.json` relies on in `serde_json`. -/
structure SerdeJson.Lists (json : SerdeJson) : Prop where
  decodes : ∀ ms : List (String × Json F64), (∀ m ∈ ms, Listed m.2) →
    json.fromStr (json.toString (.obj ms)) = some (.obj ms)

theorem PosetJson.listed (p : PosetJson) : ∀ m ∈ [("events", Json.strings p.events),
    ("edges", .pairs p.edges), ("concurrent", .pairs p.concurrent)], Listed m.2 := by
  have hstrings : Listed (.strings p.events) := by
    intro v hv
    obtain ⟨s, -, rfl⟩ := List.mem_map.mp hv
    exact .inl ⟨s, rfl⟩
  have hpairs : ∀ l, Listed (.pairs l) := by
    intro l v hv
    obtain ⟨q, -, rfl⟩ := List.mem_map.mp hv
    exact .inr ⟨q.1, q.2, rfl⟩
  simp only [List.forall_mem_cons, List.not_mem_nil, false_imp_iff, implies_true, and_true]
  exact ⟨hstrings, hpairs _, hpairs _⟩

theorem compactJson_lists : compactJson.Lists where
  decodes ms h := by
    have hlisted : ∀ j, Listed j →
        j.All (fun _ => True) fun x => (bitsFormat.text x).isSome = true := by
      rintro (_ | _ | _ | _ | _ | vs | _) hj <;> try exact hj.elim
      rw [Json.All]
      induction vs with
      | nil => trivial
      | cons v vs ih =>
        refine ⟨?_, ih fun v' hv' => hj v' (List.mem_cons_of_mem v hv')⟩
        rcases hj v (List.mem_cons_self ..) with ⟨s, rfl⟩ | ⟨a, b, rfl⟩
        · trivial
        · exact ⟨trivial, trivial, trivial⟩
    have hall : (Json.obj ms).All (fun _ => True) fun x => (bitsFormat.text x).isSome = true := by
      rw [Json.All]
      induction ms with
      | nil => trivial
      | cons m ms ih =>
        exact ⟨hlisted _ (h m (List.mem_cons_self ..)),
          ih fun m' hm' => h m' (List.mem_cons_of_mem m hm')⟩
    rw [compactJson]
    show Json.parse bitsFormat (String.ofList _).toList = _
    rw [String.toList_ofList, Json.parse_print hall]

/-! ### What the writers leave -/

section Written

variable {V : Type} {json : SerdeJson} {file : Sink V} {written : V → List UInt8}
  (hfile : file.NoError written)
include hfile

theorem pieces_written : ∀ (pieces : List (List UInt8)) (w : V),
    ∃ w', pieces.foldlM file.writeAll w = some w' ∧ written w' = written w ++ pieces.flatten
  | [], w => ⟨w, rfl, (List.append_nil _).symm⟩
  | bs :: pieces, w => by
    obtain ⟨w₁, h1, hc1⟩ := hfile.writeAll w bs
    obtain ⟨w', h', hc'⟩ := pieces_written pieces w₁
    refine ⟨w', ?_, ?_⟩
    · rw [List.foldlM_cons, h1]
      exact h'
    · rw [hc', hc1, List.flatten_cons, List.append_assoc]

/-- **What is read back of `poset.json` is the poset.** -/
theorem readPoset_writePoset (hjson : json.Lawful) (hlists : json.Lists) (r : Replayed) {w : V}
    (hw : written w = []) : ∃ w', r.writePoset json file w = .ok w' ∧
      readPoset json (written w') = some r.posetJson := by
  obtain ⟨w', h', hc⟩ := pieces_written hfile (json.toWriter r.posetJson.toJson) w
  rw [hw, List.nil_append, hjson.pieces] at hc
  refine ⟨w', orError_eq_ok.mpr h', ?_⟩
  have htext : json.fromStr (json.toString r.posetJson.toJson) = some r.posetJson.toJson :=
    hlists.decodes _ r.posetJson.listed
  rw [readPoset, hc, Lines.decode_bytes, Option.bind_some, htext, Option.bind_some,
    PosetJson.ofJson_toJson]

/-- The viz data are written for every log that is read and accepted. -/
theorem emitViz_ok (hjson : json.Lawful) (hlists : json.Lists) {bytes : List UInt8}
    {log : List CausalEvent} {r : Replayed} (hread : readEvents json bytes = .ok log)
    (hr : replayLog log = .ok r) {tl ps : V} (htl : written tl = []) (hps : written ps = []) :
    ∃ tl' ps', emitViz json file tl ps bytes = some (r, tl', ps') ∧
      written tl' = logBytes json r.timeline ∧ readPoset json (written ps') = some r.posetJson := by
  obtain ⟨tl', htimeline, hc1⟩ : ∃ tl', r.writeTimeline json file tl = .ok tl' ∧
      written tl' = written tl ++ logBytes json r.timeline := writeEvents_ok hfile r.timeline tl
  obtain ⟨ps', h2, hc2⟩ := readPoset_writePoset hfile hjson hlists r hps
  rw [htl, List.nil_append] at hc1
  refine ⟨tl', ps', ?_, hc1, hc2⟩
  simp [emitViz, hread, hr, htimeline, h2, Except.toOption]

omit hfile in
theorem emitViz_eq_some {tl ps tl' ps' : V} {bytes : List UInt8} {r : Replayed}
    (h : emitViz json file tl ps bytes = some (r, tl', ps')) :
    ∃ log, readEvents json bytes = .ok log ∧ replayLog log = .ok r ∧
      r.writeTimeline json file tl = .ok tl' := by
  have hok : ∀ {ε α : Type} {x : Except ε α} {a : α}, x.toOption = some a → x = .ok a := by
    rintro ε α (e | b) a ha
    · cases ha
    · cases ha
      rfl
  obtain ⟨log, hread, h⟩ := Option.bind_eq_some_iff.mp h
  obtain ⟨r', hr, h⟩ := Option.bind_eq_some_iff.mp h
  obtain ⟨tl₁, htl, h⟩ := Option.bind_eq_some_iff.mp h
  obtain ⟨_, -, h⟩ := Option.bind_eq_some_iff.mp h
  cases h
  exact ⟨log, hok hread, hok hr, hok htl⟩

end Written

/-! ## What the poset says -/

namespace PosetJson

variable (p : PosetJson)

/-- The order that the edges draw. -/
def Before : String → String → Prop := Path p.edges

/-- The number of times two ids are listed as concurrent, in either orientation. -/
def listings (a b : String) : Nat := p.concurrent.count (a, b) + p.concurrent.count (b, a)

/-- The same poset, its edges and pairs listed in some other order. -/
structure Alike (p q : PosetJson) : Prop where
  events : p.events = q.events
  edges : p.edges.Perm q.edges
  concurrent : ∀ a b, ((a, b) ∈ p.concurrent ∨ (b, a) ∈ p.concurrent) ↔
    ((a, b) ∈ q.concurrent ∨ (b, a) ∈ q.concurrent)

end PosetJson

section Contract

variable {log : List CausalEvent} {r : Replayed} (hr : replayLog log = .ok r)
  (hids : (log.map (·.id)).Nodup)
include hids

theorem id_injective : Function.Injective fun i => (eventAt log i).id := by
  intro i j hij
  have hget : (log.map (·.id)).get (i.cast (by simp)) = (log.map (·.id)).get (j.cast (by simp)) := by
    simpa [eventAt] using hij
  simpa using hids.injective_get hget

include hr

/-- **The edges between ids draw the causal order of the log.** -/
theorem Replayed.before_iff {a b : CausalEvent} (ha : a ∈ log) (hb : b ∈ log) :
    r.posetJson.Before a.id b.id ↔
      Relation.TransGen (fun a b => a ∈ log ∧ b ∈ log ∧ (ProgramOrder a b ∨ Paired a b)) a b := by
  obtain ⟨es, hes, -, rfl⟩ := replayLog_ok.mp hr
  obtain ⟨i, rfl⟩ := exists_eventAt ha
  obtain ⟨j, rfl⟩ := exists_eventAt hb
  rw [← path_iff_causal hes]
  exact path_map (id_injective hids)

/-- **Of two events either one is before the other or the pair is listed, once.** -/
theorem Replayed.listings_iff {a b : CausalEvent} (ha : a ∈ log) (hb : b ∈ log) (hne : a ≠ b) :
    r.posetJson.listings a.id b.id = 0 ∧
        (r.posetJson.Before a.id b.id ∨ r.posetJson.Before b.id a.id) ∨
      r.posetJson.listings a.id b.id = 1 ∧
        ¬ r.posetJson.Before a.id b.id ∧ ¬ r.posetJson.Before b.id a.id := by
  rw [before_iff hr hids ha hb, before_iff hr hids hb ha]
  obtain ⟨es, hes, -, rfl⟩ := replayLog_ok.mp hr
  obtain ⟨i, rfl⟩ := exists_eventAt ha
  obtain ⟨j, rfl⟩ := exists_eventAt hb
  rw [← path_iff_causal hes, ← path_iff_causal hes]
  have hinj := id_injective hids
  have hcount : ∀ i j : Fin log.length,
      (concurrentPairs ⟨log, es⟩).count ((eventAt log i).id, (eventAt log j).id) =
        (Poset.unordered ⟨log, es⟩).count (i, j) := by
    intro i j
    rw [concurrentPairs_eq]
    exact List.count_map_of_injective _ (Prod.map _ _) (hinj.prodMap hinj) (i, j)
  have hlistings : (replayedOf ⟨log, es⟩).posetJson.listings (eventAt log i).id (eventAt log j).id =
      listings (Poset.unordered ⟨log, es⟩) i j := by
    rw [PosetJson.listings, replayedOf, hcount, hcount, listings]
  rw [hlistings]
  by_cases h : Path es i j ∨ Path es j i
  · exact .inl ⟨listings_of_path h, h⟩
  · rw [not_or] at h
    exact .inr ⟨listings_of_unordered (fun he => hne (he ▸ rfl)) h.1 h.2, h⟩

end Contract

/-! ## The canonical file -/

/-- Two orders of one log have posets alike. -/
theorem posetJson_alike {log log' : List CausalEvent} (hp : log.Perm log') {r r' : Replayed}
    (hr : replayLog log = .ok r) (hr' : replayLog log' = .ok r') :
    r.posetJson.Alike r'.posetJson := by
  have htimeline := congrArg (List.map CausalEvent.id) (timeline_perm hp hr hr')
  obtain ⟨es, hes, -, rfl⟩ := replayLog_ok.mp hr
  obtain ⟨es', hes', -, rfl⟩ := replayLog_ok.mp hr'
  have hedges := (edges_perm hp hes hes').map (Prod.map CausalEvent.id CausalEvent.id)
  simp only [replayedOf, List.map_map] at htimeline hedges
  exact ⟨htimeline, hedges, concurrentPairs_perm hp hes hes'⟩

section Read

variable {json : SerdeJson}

/-- An event read from any file has its counters in range. -/
theorem readLines_encodable : ∀ {ls : List (List UInt8)} {events : List CausalEvent},
    readLines json ls = .ok events → (∀ e ∈ events, ∀ x, e.value = some x → x.Finite) →
      ∀ e ∈ events, e.Encodable
  | [], events, h, _ => by
    cases h
    simp
  | bs :: ls, events, h, hvalue => by
    rw [readLines] at h
    obtain ⟨line, -, h⟩ := Except.bind_eq_ok.mp h
    split at h
    · exact readLines_encodable h hvalue
    · obtain ⟨e, he, h⟩ := Except.bind_eq_ok.mp h
      obtain ⟨rest, hrest, h⟩ := Except.bind_eq_ok.mp h
      cases h
      obtain ⟨j, -, hj⟩ := Option.bind_eq_some_iff.mp (orError_eq_ok.mp he)
      rw [List.forall_mem_cons] at hvalue ⊢
      exact ⟨CausalEvent.ofJson_encodable hj hvalue.1, readLines_encodable hrest hvalue.2⟩

theorem readEvents_encodable {bs : List UInt8} {events : List CausalEvent}
    (h : readEvents json bs = .ok events)
    (hvalue : ∀ e ∈ events, ∀ x, e.value = some x → x.Finite) : ∀ e ∈ events, e.Encodable :=
  readLines_encodable h hvalue

end Read

theorem originLog_encodable : ∀ e ∈ originLog, e.Encodable := by
  simp only [originLog, List.forall_mem_cons, List.not_mem_nil, false_imp_iff, implies_true,
    and_true]
  exact ⟨⟨by decide, by decide, by decide, by simp⟩, ⟨by decide, by decide, by decide, by simp⟩⟩

end Lichtung
