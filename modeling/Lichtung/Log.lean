import Lichtung.Core
import Lichtung.Lib.Json
import Lichtung.Lib.Lines

/-!
# The causal log as JSON lines

Model of `write_events` and `read_events` (`crates/lichtung-log/src/lib.rs`) and of the encoding
that the attributes of `CausalEvent` and `Op` derive.  `serde_json` itself is a parameter: the text
of a JSON value, the pieces in which `to_writer` writes it, and the value of a text.  The sink is a
parameter too, with operations that can fail.

Principal results: `CausalEvent.ofJson_toJson` (decoding inverts encoding), `writeEvents_ok` and
`readEvents_padded` (blank lines apart, the lines of the log are its events).
-/

namespace Lichtung

/-! ## The encoding -/

/-- Neither infinite nor a NaN. -/
def F64.Finite (x : F64) : Prop := x.bits.toNat / 2 ^ 52 % 2 ^ 11 ≠ 2 ^ 11 - 1

instance (x : F64) : Decidable x.Finite := inferInstanceAs (Decidable (_ ≠ _))

/-- `n as f64` for an `n: u64`: the nearest float, ties to even. -/
def F64.ofNat (n : Nat) : F64 :=
  let e := n.log2
  let s := e - 52
  let q := n / 2 ^ s
  let r := n % 2 ^ s
  let up := 2 ^ s < 2 * r ∨ 2 ^ s = 2 * r ∧ q % 2 = 1
  if n = 0 then ⟨0⟩
  -- `q` carries the leading 1, which the exponent field counts once more
  else ⟨.ofNat ((e + 1022) * 2 ^ 52 + (if up then q + 1 else q) * 2 ^ (52 - e))⟩

/-- `n as f64` for an `n` that is an `i64` or a `u64`. -/
def F64.ofInt : Int → F64
  | .ofNat n => .ofNat n
  | .negSucc n => ⟨2 ^ 63 + (F64.ofNat (n + 1)).bits⟩

example : F64.ofInt (-3) = ⟨0xc008000000000000⟩ := by decide +kernel

namespace Op

/-- `rename_all = "lowercase"`. -/
def name : Op → String
  | .emit => "emit"
  | .recv => "recv"
  | .compute => "compute"
  | .report => "report"
  | .drop => "drop"

def ofName (s : String) : Option Op :=
  [emit, recv, compute, report, drop].find? fun op => op.name = s

def toJson (op : Op) : Json F64 := .str op.name

/-- A unit variant is its name, or the name with a null. -/
def ofJson : Json F64 → Option Op
  | .str s => ofName s
  | .obj [(s, .null)] => ofName s
  | _ => none

theorem ofJson_toJson (op : Op) : ofJson op.toJson = some op := by
  cases op <;> decide

end Op

/-! ### Values of the fields -/

namespace Decode

variable {α : Type}

def string : Json F64 → Option String
  | .str s => some s
  | _ => none

def u64 : Json F64 → Option Nat
  | .int n => if 0 ≤ n ∧ n < 2 ^ 64 then some n.toNat else none
  | _ => none

/-- An integer of `serde_json` has 64 bits: a longer literal is a float, or out of range. -/
def f64 : Json F64 → Option F64
  | .float x => some x
  | .int n => if -2 ^ 63 ≤ n ∧ n < 2 ^ 64 then some (.ofInt n) else none
  | _ => none

/-- `BTreeMap<String, u64>`: a repeated key keeps its last value. -/
def map : Json F64 → Option StringMap
  | .obj ms => ms.foldlM (fun m p => (u64 p.2).map (m.insert p.1)) ∅
  | _ => none

/-- `Option<T>`: a null is `None`. -/
def nullable (decode : Json F64 → Option α) : Json F64 → Option (Option α)
  | .null => some none
  | j => (decode j).map some

/-- A field that must be there. -/
def required (field : Option (Option (Json F64))) (decode : Json F64 → Option α) : Option α :=
  field.bind fun v => v.bind decode

/-- A field with `#[serde(default)]`. -/
def defaulted (field : Option (Option (Json F64))) (decode : Json F64 → Option α) :
    Option (Option α) :=
  field.bind fun
    | none => some none
    | some v => nullable decode v

/-- The value of a field in an object, if it has one: a field may not be repeated. -/
def lookup (ms : List (String × Json F64)) (name : String) : Option (Option (Json F64)) :=
  match ms.filter fun m => m.1 = name with
  | [] => some none
  | [m] => some (some m.2)
  | _ => none

theorem u64_int {n : Nat} (h : n < 2 ^ 64) : u64 (.int n) = some n := by
  rw [u64, if_pos (by omega), Int.toNat_natCast]

theorem map_obj : ∀ {l : List (String × Nat)} (m : StringMap), (∀ p ∈ l, p.2 < 2 ^ 64) →
    (l.map fun p => (p.1, Json.int p.2)).foldlM (fun m p => (u64 p.2).map (m.insert p.1)) m =
      some (l.foldl (fun m p => m.insert p.1 p.2) m)
  | [], _, _ => rfl
  | p :: l, m, h => by
    have hp : u64 (.int p.2) = some p.2 := u64_int (h p (List.mem_cons_self ..))
    rw [List.map_cons, List.foldlM_cons, List.foldl_cons, hp, Option.map_some]
    exact map_obj _ fun q hq => h q (List.mem_cons_of_mem _ hq)

theorem u64_lt {j : Json F64} {n : Nat} (h : u64 j = some n) : n < 2 ^ 64 := by
  unfold u64 at h
  split at h
  · obtain ⟨hrange, hn⟩ := Option.ite_none_right_eq_some.mp h
    cases hn
    omega
  · cases h

/-- What is decoded as a map of counters holds counters. -/
theorem map_lt {j : Json F64} {m : StringMap} (h : map j = some m) :
    ∀ p ∈ m.toList, p.2 < 2 ^ 64 := by
  have hfold : ∀ (ms : List (String × Json F64)) (m₀ m : StringMap),
      (∀ (k : String) x, m₀[k]? = some x → x < 2 ^ 64) →
      ms.foldlM (fun m p => (u64 p.2).map (m.insert p.1)) m₀ = some m →
      ∀ (k : String) x, m[k]? = some x → x < 2 ^ 64 := by
    intro ms
    induction ms with
    | nil =>
      intro m₀ m h₀ hm
      cases hm
      exact h₀
    | cons p ms ih =>
      intro m₀ m h₀ hm
      rw [List.foldlM_cons] at hm
      obtain ⟨m₁, h₁, hm⟩ := Option.bind_eq_some_iff.mp hm
      obtain ⟨n, hn, rfl⟩ := Option.map_eq_some_iff.mp h₁
      refine ih _ m (fun k x hx => ?_) hm
      rw [Std.ExtTreeMap.getElem?_insert] at hx
      split at hx
      · cases hx
        exact u64_lt hn
      · exact h₀ k x hx
  unfold map at h
  split at h
  · intro p hp
    exact hfold _ ∅ m (by simp) h p.1 p.2 (Std.ExtTreeMap.mem_toList_iff_getElem?_eq_some.mp hp)
  · cases h

theorem required_eq_some {field : Option (Option (Json F64))} {decode : Json F64 → Option α}
    {a : α} (h : required field decode = some a) : ∃ j, decode j = some a := by
  obtain ⟨v, -, hv⟩ := Option.bind_eq_some_iff.mp h
  obtain ⟨j, -, hj⟩ := Option.bind_eq_some_iff.mp hv
  exact ⟨j, hj⟩

theorem nullable_of_ne {j : Json F64} {decode : Json F64 → Option α} {a : α} (hne : j ≠ .null)
    (h : decode j = some a) : nullable decode j = some (some a) := by
  unfold nullable
  split
  · exact absurd rfl hne
  · rw [h, Option.map_some]

end Decode

/-- The members of an object whose fields may be skipped (`skip_serializing_if`). -/
def present (fields : List (String × Option (Json F64))) : List (String × Json F64) :=
  fields.filterMap fun f => f.2.map (f.1, ·)

theorem present_filter_of_not_mem {name : String} :
    ∀ {fields : List (String × Option (Json F64))}, name ∉ fields.map (·.1) →
      ((present fields).filter fun m => m.1 = name) = []
  | [], _ => rfl
  | (name', v) :: fields, h => by
    rw [List.map_cons, List.mem_cons, not_or] at h
    have ih := present_filter_of_not_mem h.2
    cases v with
    | none => exact ih
    | some v =>
      have hne : ¬name' = name := Ne.symm h.1
      simpa [present, hne] using ih

/-- **A field is found as it was written.** -/
theorem lookup_present {name : String} {v : Option (Json F64)} :
    ∀ {fields : List (String × Option (Json F64))}, (fields.map (·.1)).Nodup →
      (name, v) ∈ fields → Decode.lookup (present fields) name = some v
  | (name', v') :: fields, hnodup, h => by
    rw [List.map_cons, List.nodup_cons] at hnodup
    rcases List.mem_cons.mp h with heq | h
    · obtain ⟨rfl, rfl⟩ := Prod.mk.inj heq
      have hrest := present_filter_of_not_mem hnodup.1
      unfold present at hrest
      cases v <;> simp [Decode.lookup, present, hrest]
    · have hmem : name ∈ fields.map (·.1) := List.mem_map_of_mem h
      have hne : ¬name' = name := fun he => hnodup.1 (he ▸ hmem)
      have ih := lookup_present hnodup.2 h
      unfold Decode.lookup present at ih ⊢
      cases v' <;> simpa [hne] using ih

/-! ### Events -/

namespace CausalEvent

def fieldNames : List String :=
  ["id", "actor", "seq", "op", "vclock", "lamport", "msg_id", "src", "dst", "value",
    "payload_hash"]

def fields (e : CausalEvent) : List (String × Option (Json F64)) :=
  [("id", some (.str e.id)),
   ("actor", some (.str e.actor)),
   ("seq", some (.int e.seq)),
   ("op", some e.op.toJson),
   ("vclock", some (.obj (e.vclock.toList.map fun p => (p.1, .int p.2)))),
   ("lamport", some (.int e.lamport)),
   ("msg_id", e.msgId.map .str),
   ("src", e.src.map .str),
   ("dst", e.dst.map .str),
   ("value", e.value.map .float),
   ("payload_hash", e.payloadHash.map .str)]

/-- `Serialize`. -/
def toJson (e : CausalEvent) : Json F64 := .obj (present e.fields)

/-- An event from its fields. -/
def ofFields (field : String → Option (Option (Json F64))) : Option CausalEvent := do
  let id ← Decode.required (field "id") Decode.string
  let actor ← Decode.required (field "actor") Decode.string
  let seq ← Decode.required (field "seq") Decode.u64
  let op ← Decode.required (field "op") Op.ofJson
  let vclock ← Decode.required (field "vclock") Decode.map
  let lamport ← Decode.required (field "lamport") Decode.u64
  let msgId ← Decode.defaulted (field "msg_id") Decode.string
  let src ← Decode.defaulted (field "src") Decode.string
  let dst ← Decode.defaulted (field "dst") Decode.string
  let value ← Decode.defaulted (field "value") Decode.f64
  let payloadHash ← Decode.defaulted (field "payload_hash") Decode.string
  some ⟨id, actor, seq, op, vclock, lamport, msgId, src, dst, value, payloadHash⟩

/-- `Deserialize`: an object in any order and with unknown members, or an array of the fields in
order. -/
def ofJson : Json F64 → Option CausalEvent
  | .obj ms => ofFields (Decode.lookup ms)
  | .arr vs =>
    if vs.length ≤ fieldNames.length then ofFields fun name => some vs[fieldNames.idxOf name]?
    else none
  | _ => none

/-- The counters of an event are `u64`s and its value, if it has one, is finite. -/
structure Encodable (e : CausalEvent) : Prop where
  seq : e.seq < 2 ^ 64
  lamport : e.lamport < 2 ^ 64
  vclock : ∀ p ∈ e.vclock.toList, p.2 < 2 ^ 64
  value : ∀ x, e.value = some x → x.Finite

theorem lookup_field {e : CausalEvent} {name : String} {v : Option (Json F64)} (i : Nat)
    (hi : e.fields[i]? = some (name, v)) : Decode.lookup (present e.fields) name = some v := by
  have hnodup : (e.fields.map (·.1)).Nodup := by
    show fieldNames.Nodup
    decide
  exact lookup_present hnodup (List.mem_of_getElem? hi)

theorem required_field {α : Type} {e : CausalEvent} {name : String} {j : Json F64}
    {decode : Json F64 → Option α} {a : α} (i : Nat) (hi : e.fields[i]? = some (name, some j))
    (h : decode j = some a) :
    Decode.required (Decode.lookup (present e.fields) name) decode = some a := by
  rw [lookup_field i hi]
  exact h

theorem defaulted_field {α : Type} {e : CausalEvent} {name : String} {o : Option α}
    {encode : α → Json F64} {decode : Json F64 → Option α}
    (i : Nat) (hi : e.fields[i]? = some (name, o.map encode)) (hne : ∀ a, encode a ≠ .null)
    (h : ∀ a, decode (encode a) = some a) :
    Decode.defaulted (Decode.lookup (present e.fields) name) decode = some o := by
  rw [lookup_field i hi]
  cases o with
  | none => rfl
  | some a => exact Decode.nullable_of_ne (hne a) (h a)

theorem map_vclock {m : StringMap} (h : ∀ p ∈ m.toList, p.2 < 2 ^ 64) :
    Decode.map (.obj (m.toList.map fun p => (p.1, .int p.2))) = some m := by
  have hall : (Std.ExtTreeMap.ofList m.toList : StringMap) = m := by
    refine Std.ExtTreeMap.ext_getElem? fun k => ?_
    cases hk : m[k]? with
    | some x =>
      exact Std.ExtTreeMap.getElem?_ofList_of_mem Std.ReflCmp.compare_self
        Std.ExtTreeMap.distinct_keys_toList
        (Std.ExtTreeMap.mem_toList_iff_getElem?_eq_some.mpr hk)
    | none =>
      refine Std.ExtTreeMap.getElem?_ofList_of_contains_eq_false ?_
      rw [Std.ExtTreeMap.map_fst_toList_eq_keys]
      simpa using hk
  rw [Decode.map, Decode.map_obj _ h, ← Std.ExtTreeMap.insertMany_list_eq_foldl,
    ← Std.ExtTreeMap.ofList_eq_insertMany_empty, hall]

theorem string_field {e : CausalEvent} {name : String} {o : Option String} (i : Nat)
    (hi : e.fields[i]? = some (name, o.map .str)) :
    Decode.defaulted (Decode.lookup (present e.fields) name) Decode.string = some o :=
  defaulted_field i hi (by simp) fun _ => rfl

/-- **Decoding inverts encoding.** -/
theorem ofJson_toJson {e : CausalEvent} (h : e.Encodable) : ofJson e.toJson = some e := by
  have hid := required_field (e := e) 0 rfl (show Decode.string _ = some e.id from rfl)
  have hactor := required_field (e := e) 1 rfl (show Decode.string _ = some e.actor from rfl)
  have hseq := required_field (e := e) 2 rfl (Decode.u64_int h.seq)
  have hop := required_field (e := e) 3 rfl (Op.ofJson_toJson e.op)
  have hvclock := required_field (e := e) 4 rfl (map_vclock h.vclock)
  have hlamport := required_field (e := e) 5 rfl (Decode.u64_int h.lamport)
  have hmsgId := string_field (e := e) (o := e.msgId) 6 rfl
  have hsrc := string_field (e := e) (o := e.src) 7 rfl
  have hdst := string_field (e := e) (o := e.dst) 8 rfl
  have hvalue : Decode.defaulted (Decode.lookup (present e.fields) "value") Decode.f64 =
      some e.value := defaulted_field 9 rfl (by simp) fun _ => rfl
  have hpayloadHash := string_field (e := e) (o := e.payloadHash) 10 rfl
  rw [toJson, ofJson, ofFields, hid, hactor, hseq, hop, hvclock, hlamport, hmsgId, hsrc, hdst,
    hvalue, hpayloadHash]
  rfl

/-- Whatever the fields hold, the counters of an event decoded from them are in range. -/
theorem ofFields_encodable {field : String → Option (Option (Json F64))} {e : CausalEvent}
    (h : ofFields field = some e) (hvalue : ∀ x, e.value = some x → x.Finite) : e.Encodable := by
  obtain ⟨id, -, h⟩ := Option.bind_eq_some_iff.mp h
  obtain ⟨actor, -, h⟩ := Option.bind_eq_some_iff.mp h
  obtain ⟨seq, hseq, h⟩ := Option.bind_eq_some_iff.mp h
  obtain ⟨op, -, h⟩ := Option.bind_eq_some_iff.mp h
  obtain ⟨vclock, hvclock, h⟩ := Option.bind_eq_some_iff.mp h
  obtain ⟨lamport, hlamport, h⟩ := Option.bind_eq_some_iff.mp h
  obtain ⟨msgId, -, h⟩ := Option.bind_eq_some_iff.mp h
  obtain ⟨src, -, h⟩ := Option.bind_eq_some_iff.mp h
  obtain ⟨dst, -, h⟩ := Option.bind_eq_some_iff.mp h
  obtain ⟨value, -, h⟩ := Option.bind_eq_some_iff.mp h
  obtain ⟨payloadHash, -, h⟩ := Option.bind_eq_some_iff.mp h
  cases h
  obtain ⟨_, hseq⟩ := Decode.required_eq_some hseq
  obtain ⟨_, hvclock⟩ := Decode.required_eq_some hvclock
  obtain ⟨_, hlamport⟩ := Decode.required_eq_some hlamport
  exact ⟨Decode.u64_lt hseq, Decode.u64_lt hlamport, Decode.map_lt hvclock, hvalue⟩

theorem ofJson_encodable {j : Json F64} {e : CausalEvent} (h : ofJson j = some e)
    (hvalue : ∀ x, e.value = some x → x.Finite) : e.Encodable := by
  unfold ofJson at h
  split at h
  · exact ofFields_encodable h hvalue
  · split at h
    · exact ofFields_encodable h hvalue
    · cases h
  · cases h

end CausalEvent

/-! ## The libraries under the log -/

/-- `serde_json`: the text of a value, the pieces `to_writer` writes it in, and the value of a
text. -/
structure SerdeJson where
  toString : Json F64 → String
  toWriter : Json F64 → List (List UInt8)
  fromStr : String → Option (Json F64)

/-- The values that occur in an event: scalars, strings, and maps of counters. -/
def Encoded : Json F64 → Prop
  | .int n => 0 ≤ n ∧ n < 2 ^ 64
  | .float x => x.Finite
  | .str _ => True
  | .obj ms => ∀ m ∈ ms, ∃ n : Nat, m.2 = .int n ∧ n < 2 ^ 64
  | _ => False

/-- What the log relies on in `serde_json`. -/
structure SerdeJson.Lawful (json : SerdeJson) : Prop where
  pieces : ∀ j, (json.toWriter j).flatten = Lines.bytes (json.toString j)
  line : ∀ ms, '\n' ∉ (json.toString (.obj ms)).toList
  braces : ∀ ms, ∃ body, json.toString (.obj ms) = "\x7b" ++ body ++ "\x7d"
  decodes : ∀ ms : List (String × Json F64), (∀ m ∈ ms, Encoded m.2) →
    json.fromStr (json.toString (.obj ms)) = some (.obj ms)

/-- `std::io::Write`: `none` is an I/O error. -/
structure Sink (W : Type) where
  writeAll : W → List UInt8 → Option W
  flush : W → Option W

/-- A sink without I/O errors, `contents` being what was written to it. -/
structure Sink.NoError {W : Type} (sink : Sink W) (contents : W → List UInt8) : Prop where
  writeAll : ∀ w bs, ∃ w', sink.writeAll w bs = some w' ∧ contents w' = contents w ++ bs
  flush : ∀ w, ∃ w', sink.flush w = some w' ∧ contents w' = contents w

/-! ## Writing and reading the log -/

inductive LogError where
  | io
  | json
  deriving DecidableEq, Repr

variable {W : Type}

/-- `?` on an operation whose error becomes `err`. -/
def orError (err : LogError) (o : Option W) : Except LogError W := o.elim (.error err) .ok

/-- The line of an event, as `to_string` gives it. -/
def eventLine (json : SerdeJson) (e : CausalEvent) : String := json.toString e.toJson

def writeEvents (json : SerdeJson) (sink : Sink W) : List CausalEvent → W → Except LogError W
  | [], w => .ok w
  | e :: events, w => do
    let w ← orError .io (sink.writeAll w (Lines.bytes (eventLine json e)))
    let w ← orError .io (sink.writeAll w [10])
    writeEvents json sink events w

/-- `char::is_whitespace`. -/
def isWhitespace (c : Char) : Bool :=
  let n := c.toNat
  (9 ≤ n && n ≤ 13) || (0x2000 ≤ n && n ≤ 0x200a) ||
    n ∈ [0x20, 0x85, 0xa0, 0x1680, 0x2028, 0x2029, 0x202f, 0x205f, 0x3000]

/-- `line.trim().is_empty()`. -/
def isBlank (line : String) : Bool := line.toList.all isWhitespace

def readLines (json : SerdeJson) : List (List UInt8) → Except LogError (List CausalEvent)
  | [] => .ok []
  | bs :: ls => do
    -- `BufRead::lines` fails on a line that is not UTF-8
    let line ← orError .io (Lines.decode bs)
    if isBlank line then readLines json ls
    else do
      let e ← orError .json ((json.fromStr line).bind CausalEvent.ofJson)
      let events ← readLines json ls
      .ok (e :: events)

def readEvents (json : SerdeJson) (bs : List UInt8) : Except LogError (List CausalEvent) :=
  readLines json (Lines.lines bs)

/-- The bytes of a log. -/
def logBytes (json : SerdeJson) (events : List CausalEvent) : List UInt8 :=
  Lines.terminated (events.map fun e => Lines.bytes (eventLine json e))

@[simp] theorem orError_some (err : LogError) (w : W) : orError err (some w) = .ok w := rfl

theorem orError_eq_ok {err : LogError} {o : Option W} {w : W} :
    orError err o = .ok w ↔ o = some w := by
  cases o <;> simp [orError]

@[simp] theorem logBytes_nil (json : SerdeJson) : logBytes json [] = [] := rfl

theorem logBytes_cons (json : SerdeJson) (e : CausalEvent) (events : List CausalEvent) :
    logBytes json (e :: events) =
      Lines.bytes (eventLine json e) ++ 10 :: logBytes json events := by
  simp [logBytes, Lines.terminated]

theorem logBytes_append (json : SerdeJson) (es es' : List CausalEvent) :
    logBytes json (es ++ es') = logBytes json es ++ logBytes json es' := by
  simp [logBytes, Lines.terminated]

theorem writeEvents_ok {json : SerdeJson} {sink : Sink W} {contents : W → List UInt8}
    (hsink : sink.NoError contents) : ∀ (events : List CausalEvent) (w : W),
      ∃ w', writeEvents json sink events w = .ok w' ∧
        contents w' = contents w ++ logBytes json events
  | [], w => ⟨w, rfl, (List.append_nil _).symm⟩
  | e :: events, w => by
    obtain ⟨w₁, h1, hc1⟩ := hsink.writeAll w (Lines.bytes (eventLine json e))
    obtain ⟨w₂, h2, hc2⟩ := hsink.writeAll w₁ [10]
    obtain ⟨w', h', hc'⟩ := writeEvents_ok hsink events w₂
    refine ⟨w', ?_, ?_⟩
    · rw [writeEvents, h1, orError_some]
      show (orError .io (sink.writeAll w₁ [10])).bind _ = _
      rw [h2, orError_some]
      exact h'
    · rw [hc', hc2, hc1, logBytes_cons]
      simp

/-! ### Reading back -/

section Read

variable {json : SerdeJson}

theorem encoded_fields {e : CausalEvent} (h : e.Encodable) :
    ∀ m ∈ present e.fields, Encoded m.2 := by
  have hnat : ∀ {n : Nat}, n < 2 ^ 64 → Encoded (.int n) := fun hn => ⟨by omega, by omega⟩
  have hstring : ∀ (o : Option String) (j : Json F64), o.map .str = some j → Encoded j := by
    intro o j hj
    obtain ⟨s, -, rfl⟩ := Option.map_eq_some_iff.mp hj
    trivial
  have hvalue : ∀ j, e.value.map .float = some j → Encoded j := by
    intro j hj
    obtain ⟨x, hx, rfl⟩ := Option.map_eq_some_iff.mp hj
    exact h.value x hx
  have hvclock : Encoded (.obj (e.vclock.toList.map fun p => (p.1, .int p.2))) := by
    intro m hm
    obtain ⟨p, hp, rfl⟩ := List.mem_map.mp hm
    exact ⟨p.2, rfl, h.vclock p hp⟩
  have hall : ∀ f ∈ e.fields, ∀ j, f.2 = some j → Encoded j := by
    simp only [CausalEvent.fields, List.forall_mem_cons, List.not_mem_nil, Option.some.injEq,
      forall_eq']
    exact ⟨trivial, trivial, hnat h.seq, trivial, hvclock, hnat h.lamport, hstring _, hstring _,
      hstring _, hvalue, hstring _, fun _ hf => hf.elim⟩
  intro m hm
  obtain ⟨f, hf, hfm⟩ := List.mem_filterMap.mp hm
  obtain ⟨j, hj, rfl⟩ := Option.map_eq_some_iff.mp hfm
  exact hall f hf j hj

theorem eventLine_decodes (hjson : json.Lawful) {e : CausalEvent} (h : e.Encodable) :
    (json.fromStr (eventLine json e)).bind CausalEvent.ofJson = some e := by
  have htext := hjson.decodes _ (encoded_fields h)
  rw [eventLine, CausalEvent.toJson, htext]
  exact CausalEvent.ofJson_toJson h

theorem eventLine_bytes (hjson : json.Lawful) (e : CausalEvent) :
    10 ∉ Lines.bytes (eventLine json e) := fun h =>
  hjson.line _ ((Lines.mem_bytes_iff (d := '\n') (by decide)).mp h)

/-- The line of an event is cut off a stream whole, and is not blank. -/
theorem eventLine_line (hjson : json.Lawful) (e : CausalEvent) :
    Lines.chomp (Lines.bytes (eventLine json e)) = Lines.bytes (eventLine json e) ∧
      isBlank (eventLine json e) = false := by
  obtain ⟨body, hbody⟩ := hjson.braces (present e.fields)
  have hline : (eventLine json e).toList = '\x7b' :: (body.toList ++ ['\x7d']) := by
    rw [eventLine, CausalEvent.toJson, hbody]
    simp
  constructor
  · refine (Lines.chomp_bytes _).1 ?_
    rw [hline, ← List.cons_append, List.getLast?_concat]
    simp
  · rw [isBlank, hline]
    rfl

theorem readLines_event (hjson : json.Lawful) {e : CausalEvent} (h : e.Encodable)
    (ls : List (List UInt8)) :
    readLines json (Lines.chomp (Lines.bytes (eventLine json e)) :: ls) =
      (readLines json ls).map (e :: ·) := by
  obtain ⟨hchomp, hblank⟩ := eventLine_line hjson e
  rw [readLines, hchomp, Lines.decode_bytes, orError_some]
  show (if isBlank (eventLine json e) = true then _ else _) = _
  rw [if_neg (by simp [hblank]), eventLine_decodes hjson h, orError_some]
  show (readLines json ls).bind _ = _
  cases readLines json ls <;> rfl

theorem readLines_blank {s : String} (hs : isBlank s = true) (ls : List (List UInt8)) :
    readLines json (Lines.chomp (Lines.bytes s) :: ls) = readLines json ls := by
  obtain ⟨-, t, ht, hmem⟩ := Lines.chomp_bytes s
  have hblank : isBlank t = true := by
    rw [isBlank, List.all_eq_true] at hs ⊢
    exact fun c hc => hs c (hmem c hc)
  rw [readLines, ht, Lines.decode_bytes, orError_some]
  show (if isBlank t = true then _ else _) = _
  rw [if_pos hblank]

/-- **Blank lines apart, the lines of the log are its events.** -/
theorem readEvents_padded (hjson : json.Lawful) {bs ps : List UInt8}
    (h : Lines.Padded isBlank bs ps) : ∀ {events : List CausalEvent},
      (∀ e ∈ events, e.Encodable) → bs = logBytes json events →
        readEvents json ps = .ok events := by
  induction h with
  | nil =>
    intro events _ hbs
    cases events with
    | nil => rfl
    | cons e events => simp [logBytes_cons] at hbs
  | @line l bs ps hl _ ih =>
    intro events hevents hbs
    cases events with
    | nil => simp at hbs
    | cons e events =>
      rw [logBytes_cons] at hbs
      obtain ⟨rfl, rfl⟩ := Lines.first_line_inj hl (eventLine_bytes hjson e) hbs
      have hrest := ih (fun e' he' => hevents e' (List.mem_cons_of_mem _ he')) rfl
      rw [readEvents, Lines.lines_append hl,
        readLines_event hjson (hevents e (List.mem_cons_self ..))]
      rw [readEvents] at hrest
      rw [hrest]
      rfl
  | @blank s bs ps hs hline _ ih =>
    intro events hevents hbs
    have hs10 : 10 ∉ Lines.bytes s := fun h =>
      hline ((Lines.mem_bytes_iff (d := '\n') (by decide)).mp h)
    rw [readEvents, Lines.lines_append hs10, readLines_blank hs]
    exact ih hevents hbs

/-- The bytes of events that can be encoded read back. -/
theorem readEvents_logBytes (hjson : json.Lawful) {events : List CausalEvent}
    (h : ∀ e ∈ events, e.Encodable) : readEvents json (logBytes json events) = .ok events := by
  refine readEvents_padded hjson (Lines.Padded.refl ?_) h rfl
  intro l hl
  obtain ⟨e, -, rfl⟩ := List.mem_map.mp hl
  exact eventLine_bytes hjson e

end Read

/-! ### An instance

The compact text of `Json.print`, with a float written as the number of its bits: an instance of
the laws, and `serde_json` itself on events that have no value. -/

/-- The number of the bits, with a fraction of zero. -/
def bitsText (x : F64) : List Char := x.bits.toNat.repr.toList ++ ['.', '0']

def finiteText (x : F64) : Option (List Char) := if x.Finite then some (bitsText x) else none

theorem of_finiteText {x : F64} {t : List Char} (h : finiteText x = some t) : t = bitsText x :=
  (Option.some.inj (Option.ite_none_right_eq_some.mp h).2).symm

theorem bitsText_not_int (x : F64) : Json.intOf (bitsText x) = none := by
  have hnat : Json.natOf (bitsText x) = none := by
    refine if_neg fun h => ?_
    have hdot : '.' ∈ bitsText x := List.mem_append_right _ (List.mem_cons_self ..)
    rw [h] at hdot
    exact absurd (Decimal.isDigit_of_mem_repr hdot) (by decide)
  unfold Json.intOf
  split
  · rename_i cs h
    obtain ⟨d, ds, hd⟩ := List.exists_cons_of_ne_nil (Json.repr_ne_nil x.bits.toNat)
    rw [bitsText, hd, List.cons_append] at h
    have hmem : d ∈ x.bits.toNat.repr.toList := by rw [hd]; exact List.mem_cons_self ..
    rw [(List.cons.inj h).1] at hmem
    exact absurd (Decimal.isDigit_of_mem_repr hmem) (by decide)
  · rw [hnat, Option.map_none]

def bitsFormat : Json.FloatFormat F64 where
  text := finiteText
  read t := (Json.natOf (t.dropLast.dropLast)).map fun n => ⟨.ofNat n⟩
  ne_nil h := by
    obtain rfl := of_finiteText h
    simp [bitsText]
  chars h := by
    obtain rfl := of_finiteText h
    intro c hc
    rcases List.mem_append.mp hc with hc | hc
    · exact Json.repr_chars _ c hc
    · exact (by simp [Json.isNumberChar] : ∀ c ∈ ['.', '0'], Json.isNumberChar c = true) c hc
  not_int h := by
    obtain rfl := of_finiteText h
    exact bitsText_not_int _
  read_text {x _} h := by
    obtain rfl := of_finiteText h
    have hdrop : (bitsText x).dropLast.dropLast = x.bits.toNat.repr.toList := by simp [bitsText]
    rw [hdrop, Json.natOf_repr, Option.map_some, UInt64.ofNat_toNat]

def compactJson : SerdeJson where
  toString j := String.ofList (Json.print bitsFormat j)
  toWriter j := [Lines.bytes (String.ofList (Json.print bitsFormat j))]
  fromStr s := Json.parse bitsFormat s.toList

theorem Encoded.all {j : Json F64} (h : Encoded j) :
    j.All (fun _ => True) fun x => (bitsFormat.text x).isSome = true := by
  have hcounters : ∀ ms : List (String × Json F64),
      (∀ m ∈ ms, ∃ n : Nat, m.2 = .int n ∧ n < 2 ^ 64) →
      Json.AllMembers (fun _ => True) (fun x => (bitsFormat.text x).isSome = true) ms := by
    intro ms hms
    induction ms with
    | nil => trivial
    | cons m ms ih =>
      obtain ⟨n, hn, -⟩ := hms m (List.mem_cons_self ..)
      rw [Json.AllMembers, hn]
      exact ⟨trivial, ih fun m' hm' => hms m' (List.mem_cons_of_mem m hm')⟩
  cases j with
  | int n => trivial
  | float x =>
    have hx : x.Finite := h
    simp [Json.All, bitsFormat, finiteText, hx]
  | str s => trivial
  | obj ms => exact hcounters ms h
  | null => exact h.elim
  | bool b => exact h.elim
  | arr vs => exact h.elim

theorem compactJson_lawful : compactJson.Lawful where
  pieces j := List.append_nil _
  line ms h := by
    have := Json.print_char (by rwa [compactJson, String.toList_ofList] at h)
    exact absurd this (by decide)
  braces ms := by
    obtain ⟨cs, hcs⟩ := @Json.print_obj F64 bitsFormat ms
    refine ⟨String.ofList cs, String.toList_inj.mp ?_⟩
    rw [compactJson, String.toList_ofList, hcs]
    simp
  decodes ms h := by
    have hall : (Json.obj ms).All (fun _ => True) fun x => (bitsFormat.text x).isSome = true := by
      rw [Json.All]
      induction ms with
      | nil => trivial
      | cons m ms ih =>
        exact ⟨(h m (List.mem_cons_self ..)).all,
          ih fun m' hm' => h m' (List.mem_cons_of_mem m hm')⟩
    rw [compactJson]
    show Json.parse bitsFormat (String.ofList _).toList = _
    rw [String.toList_ofList, Json.parse_print hall]

end Lichtung
