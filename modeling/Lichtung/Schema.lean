import Lichtung.Log
import Lichtung.Lib.JsonSchema

/-!
# The event schema

`tests/fixtures/event.schema.json` of `crates/lichtung-log`, the format the log shares with its
analyser, against what the recorder writes and the reader takes.  The derived encoding keeps to the
schema except for an empty id or actor.  The derived decoding takes whatever the schema allows, as
long as the counters are written as integers below 2^64 and an integral `value` has 64 bits.

Principal results: `CausalEvent.conforms_iff` and `conforming_read`.
-/

namespace Lichtung

open JsonSchema

/-- The number a finite float stands for. -/
def F64.toRat (x : F64) : Option Rat :=
  let e := x.bits.toNat / 2 ^ 52 % 2 ^ 11
  let fraction : Nat := x.bits.toNat % 2 ^ 52
  -- a subnormal has no leading 1 and the exponent of the least normal
  let significand : Rat := if e = 0 then fraction else fraction + 2 ^ 52
  let sign : Rat := if x.bits.toNat / 2 ^ 63 = 1 then -1 else 1
  if x.Finite then some (sign * significand * 2 ^ max e 1 / 2 ^ 1075) else none

example : (F64.ofInt (-3)).toRat = some (-3) := by decide +kernel

theorem F64.toRat_isSome {x : F64} (h : x.Finite) : x.toRat.isSome = true := by
  simp only [F64.toRat, if_pos h, Option.isSome_some]

/-! ## The schema -/

/-- A string that is not empty. -/
def nonEmptySchema : JsonSchema F64 := allOf [type F64.toRat [.string], minLength 1]

/-- An integer from 0 on. -/
def counterSchema : JsonSchema F64 := allOf [type F64.toRat [.integer], minimum F64.toRat 0]

def opSchema : JsonSchema F64 :=
  allOf [type F64.toRat [.string], enum ["emit", "recv", "compute", "report", "drop"]]

def vclockSchema : JsonSchema F64 :=
  allOf [type F64.toRat [.object], required [], properties [] counterSchema]

/-- The `properties` of `event.schema.json`. -/
def eventProperties : List (String × JsonSchema F64) :=
  [("id", nonEmptySchema),
   ("actor", nonEmptySchema),
   ("seq", counterSchema),
   ("op", opSchema),
   ("vclock", vclockSchema),
   ("lamport", counterSchema),
   ("msg_id", type F64.toRat [.string, .null]),
   ("src", type F64.toRat [.string, .null]),
   ("dst", type F64.toRat [.string, .null]),
   ("value", type F64.toRat [.number, .null]),
   ("payload_hash", type F64.toRat [.string, .null])]

/-- `event.schema.json`. -/
def eventSchema : JsonSchema F64 :=
  allOf [
    type F64.toRat [.object],
    required ["id", "actor", "seq", "op", "vclock", "lamport"],
    properties eventProperties never]

theorem nonEmptySchema_iff {j : Json F64} :
    nonEmptySchema j = true ↔ ∃ s, j = .str s ∧ s ≠ "" := by
  simp only [nonEmptySchema, allOf_iff, List.forall_mem_cons, type_iff, List.mem_singleton,
    exists_eq_left, holds_string_iff, forall_eq]
  constructor
  · rintro ⟨⟨s, rfl⟩, hlen⟩
    refine ⟨s, rfl, fun h => ?_⟩
    subst h
    cases hlen
  · rintro ⟨s, rfl, hs⟩
    exact ⟨⟨s, rfl⟩, by simp [minLength, Nat.one_le_iff_ne_zero, hs]⟩

theorem counterSchema_int {n : Int} : counterSchema (.int n) = true ↔ 0 ≤ n := integer_int_iff

/-! ## What is written -/

/-- What a member that may be skipped has to satisfy. -/
theorem forall_present {fields : List (String × Option (Json F64))}
    {p : String × Json F64 → Prop} :
    (∀ m ∈ present fields, p m) ↔ ∀ f ∈ fields, ∀ v, f.2 = some v → p (f.1, v) := by
  simp only [present, List.mem_filterMap, Option.map_eq_some_iff]
  constructor
  · exact fun h f hf v hv => h _ ⟨f, hf, v, hv, rfl⟩
  · rintro h m ⟨f, hf, v, hv, rfl⟩
    exact h f hf v hv

namespace CausalEvent

theorem opSchema_toJson (op : Op) : opSchema op.toJson = true := by
  cases op <;> decide

theorem vclockSchema_map (m : StringMap) :
    vclockSchema (.obj (m.toList.map fun p => (p.1, .int p.2))) = true := by
  rw [vclockSchema, object_iff]
  refine ⟨by simp, fun c hc => ?_⟩
  obtain ⟨p, -, rfl⟩ := List.mem_map.mp hc
  exact counterSchema_int.mpr (Int.natCast_nonneg p.2)

/-- A string that may be absent. -/
theorem nullable_str {o : Option String} {v : Json F64} (h : o.map .str = some v) :
    type F64.toRat [.string, .null] v = true := by
  obtain ⟨s, -, rfl⟩ := Option.map_eq_some_iff.mp h
  simp

/-- **What is encoded keeps to the schema**, unless its id or its actor is empty. -/
theorem conforms_iff {e : CausalEvent} (hvalue : ∀ x, e.value = some x → x.Finite) :
    eventSchema e.toJson = true ↔ e.id ≠ "" ∧ e.actor ≠ "" := by
  rw [toJson, eventSchema, object_iff, forall_present]
  constructor
  · rintro ⟨-, h⟩
    simp only [fields, List.forall_mem_cons] at h
    obtain ⟨hid, hactor, -⟩ := h
    obtain ⟨s, hs, hs'⟩ := nonEmptySchema_iff.mp (hid _ rfl)
    obtain ⟨a, ha, ha'⟩ := nonEmptySchema_iff.mp (hactor _ rfl)
    cases hs
    cases ha
    exact ⟨hs', ha'⟩
  · rintro ⟨hid, hactor⟩
    refine ⟨by simp [present, fields], ?_⟩
    simp only [fields, List.forall_mem_cons]
    refine ⟨?_, ?_, ?_, ?_, ?_, ?_, ?_, ?_, ?_, ?_, ?_, by simp⟩
    · rintro _ ⟨⟩; exact nonEmptySchema_iff.mpr ⟨_, rfl, hid⟩
    · rintro _ ⟨⟩; exact nonEmptySchema_iff.mpr ⟨_, rfl, hactor⟩
    · rintro _ ⟨⟩; exact counterSchema_int.mpr (Int.natCast_nonneg _)
    · rintro _ ⟨⟩; exact opSchema_toJson e.op
    · rintro _ ⟨⟩; exact vclockSchema_map e.vclock
    · rintro _ ⟨⟩; exact counterSchema_int.mpr (Int.natCast_nonneg _)
    · exact fun v hv => nullable_str hv
    · exact fun v hv => nullable_str hv
    · exact fun v hv => nullable_str hv
    · intro v hv
      obtain ⟨x, hx, rfl⟩ := Option.map_eq_some_iff.mp hv
      exact type_iff.mpr ⟨.number, by simp, F64.toRat_isSome (hvalue x hx)⟩
    · exact fun v hv => nullable_str hv

/-! ## What is read -/

/-- The number of a counter is written as an integer, and fits a `u64`. -/
def Fits : Json F64 → Prop
  | .int n => n < 2 ^ 64
  | .float _ => False
  | _ => True

/-- The counters of an object fit, and an integral `value` is an `i64` or a `u64`. -/
structure NumbersFit (ms : List (String × Json F64)) : Prop where
  seq : ∀ v, ("seq", v) ∈ ms → Fits v
  lamport : ∀ v, ("lamport", v) ∈ ms → Fits v
  vclock : ∀ cs, ("vclock", .obj cs) ∈ ms → ∀ c ∈ cs, Fits c.2
  value : ∀ n, ("value", .int n) ∈ ms → -2 ^ 63 ≤ n ∧ n < 2 ^ 64

/-- The event holds what the members say: a null is absent, and an integral `value` is a float. -/
structure Reads (ms : List (String × Json F64)) (e : CausalEvent) : Prop where
  members : ∀ m ∈ ms, m.1 ≠ "vclock" → m.2 = .null ∨ (m.1, some m.2) ∈ e.fields ∨
    ∃ n, m = ("value", .int n) ∧ e.value = some (.ofInt n)
  vclock : ∀ cs, ("vclock", .obj cs) ∈ ms → (cs.map (·.1)).Nodup →
    ∀ k n, e.vclock[k]? = some n ↔ (k, .int n) ∈ cs
  absent : ∀ f ∈ e.fields, f.2 ≠ none → ∃ v, (f.1, v) ∈ ms

theorem string_read {j : Json F64} (h : nonEmptySchema j = true) :
    ∃ s, Decode.string j = some s ∧ j = .str s ∧ s ≠ "" := by
  obtain ⟨s, rfl, hs⟩ := nonEmptySchema_iff.mp h
  exact ⟨s, rfl, rfl, hs⟩

theorem counter_read {j : Json F64} (h : counterSchema j = true) (hfits : Fits j) :
    ∃ n : Nat, Decode.u64 j = some n ∧ j = .int n := by
  cases j with
  | int n =>
    have hn := counterSchema_int.mp h
    exact ⟨n.toNat, if_pos ⟨hn, hfits⟩, by rw [Int.toNat_of_nonneg hn]⟩
  | float x => exact hfits.elim
  | _ => simp [counterSchema, Kind.holds, Json.asNumber] at h

theorem op_read {j : Json F64} (h : opSchema j = true) :
    ∃ op, Op.ofJson j = some op ∧ j = op.toJson := by
  simp only [opSchema, allOf_iff, List.forall_mem_cons, type_iff, List.mem_singleton,
    exists_eq_left, holds_string_iff, forall_eq] at h
  obtain ⟨⟨s, rfl⟩, hs⟩ := h
  have hmem : s ∈ ["emit", "recv", "compute", "report", "drop"] := List.contains_iff_mem.mp hs
  simp only [List.mem_cons, List.not_mem_nil, or_false] at hmem
  rcases hmem with rfl | rfl | rfl | rfl | rfl <;> exact ⟨_, rfl, rfl⟩

/-- Counters are read into a map, each under its name. -/
theorem counters_read : ∀ {cs : List (String × Json F64)} (m : StringMap),
    (∀ c ∈ cs, ∃ n : Nat, Decode.u64 c.2 = some n ∧ c.2 = .int n) →
      ∃ m', cs.foldlM (fun m p => (Decode.u64 p.2).map (m.insert p.1)) m = some m' ∧
        ((cs.map (·.1)).Nodup → ∀ k n, m'[k]? = some n ↔
          (k, .int n) ∈ cs ∨ k ∉ cs.map (·.1) ∧ m[k]? = some n)
  | [], m, _ => ⟨m, rfl, fun _ k n => by simp⟩
  | (name, v) :: cs, m, h => by
    obtain ⟨x, hx, rfl⟩ := h _ (List.mem_cons_self ..)
    obtain ⟨m', hm', hspec⟩ :=
      counters_read (m.insert name x) fun c hc => h c (List.mem_cons_of_mem _ hc)
    refine ⟨m', by rw [List.foldlM_cons, hx]; exact hm', fun hnd k n => ?_⟩
    obtain ⟨hfresh, hnd⟩ := List.nodup_cons.mp hnd
    rw [hspec hnd, Std.ExtTreeMap.getElem?_insert]
    by_cases hk : name = k
    · subst hk
      have hnot : (name, Json.int n) ∉ cs := fun hin => hfresh (List.mem_map.mpr ⟨_, hin, rfl⟩)
      simp [hfresh, hnot, eq_comm]
    · simp [hk, Ne.symm hk]

theorem vclock_read {j : Json F64} (h : vclockSchema j = true)
    (hfits : ∀ cs, j = .obj cs → ∀ c ∈ cs, Fits c.2) : ∃ m, Decode.map j = some m ∧
      ∀ cs, j = .obj cs → (cs.map (·.1)).Nodup → ∀ k n, m[k]? = some n ↔ (k, .int n) ∈ cs := by
  obtain ⟨cs, rfl⟩ : ∃ cs, j = .obj cs := by
    simp only [vclockSchema, allOf_iff, List.forall_mem_cons, type_iff, List.mem_singleton,
      exists_eq_left, holds_object_iff] at h
    exact h.1
  have hcounters := (object_iff.mp h).2
  obtain ⟨m, hm, hspec⟩ := counters_read ∅ fun c hc =>
    counter_read (hcounters c hc) (hfits cs rfl c hc)
  refine ⟨m, hm, ?_⟩
  rintro _ ⟨⟩ hnd k n
  rw [hspec hnd]
  simp

theorem nullable_string_read {j : Json F64} (h : type F64.toRat [.string, .null] j = true) :
    ∃ o, Decode.nullable Decode.string j = some o ∧ (j = .null ∨ o.map .str = some j) := by
  simp only [type_iff, List.mem_cons, List.not_mem_nil, or_false, exists_eq_or_imp,
    exists_eq_left, holds_string_iff, holds_null_iff] at h
  rcases h with ⟨s, rfl⟩ | rfl
  · exact ⟨_, rfl, .inr rfl⟩
  · exact ⟨_, rfl, .inl rfl⟩

theorem nullable_number_read {j : Json F64} (h : type F64.toRat [.number, .null] j = true)
    (hfits : ∀ n, j = .int n → -2 ^ 63 ≤ n ∧ n < 2 ^ 64) :
    ∃ o, Decode.nullable Decode.f64 j = some o ∧
      (j = .null ∨ o.map .float = some j ∨ ∃ n, j = .int n ∧ o = some (.ofInt n)) := by
  cases j with
  | null => exact ⟨_, rfl, .inl rfl⟩
  | int n =>
    refine ⟨some (.ofInt n), ?_, .inr (.inr ⟨n, rfl, rfl⟩)⟩
    exact Decode.nullable_of_ne (by simp) (if_pos (hfits n rfl))
  | float x => exact ⟨_, rfl, .inr (.inl rfl)⟩
  | _ => simp [Kind.holds, Json.asNumber] at h

section Members

variable {ms : List (String × Json F64)} (name : String) {α : Type} {decode : Json F64 → Option α}

/-- A member is found, in an object that repeats no name. -/
theorem lookup_of_mem {name : String} {v : Json F64} : ∀ {ms : List (String × Json F64)},
    (ms.map (·.1)).Nodup → (name, v) ∈ ms → Decode.lookup ms name = some (some v)
  | m :: ms, hnd, h => by
    obtain ⟨hfresh, hnd⟩ := List.nodup_cons.mp hnd
    rcases List.mem_cons.mp h with rfl | h
    · have hrest : ms.filter (fun m => m.1 = name) = [] := by
        simp only [List.filter_eq_nil_iff, decide_eq_true_eq]
        rintro m hm hname
        exact hfresh (List.mem_map.mpr ⟨m, hm, hname⟩)
      simp [Decode.lookup, hrest]
    · have hne : m.1 ≠ name := by
        rintro rfl
        exact hfresh (List.mem_map.mpr ⟨_, h, rfl⟩)
      have ih := lookup_of_mem hnd h
      unfold Decode.lookup at ih ⊢
      rwa [List.filter_cons_of_neg (by simpa using hne)]

theorem lookup_of_not_mem {name : String} (h : ∀ v, (name, v) ∉ ms) :
    Decode.lookup ms name = some none := by
  have hfilter : ms.filter (fun m => m.1 = name) = [] := by
    simp only [List.filter_eq_nil_iff, decide_eq_true_eq]
    rintro ⟨_, v⟩ hm rfl
    exact h v hm
  rw [Decode.lookup, hfilter]

/-- A required member is decoded. -/
theorem required_read (hnd : (ms.map (·.1)).Nodup) (hreq : ∃ v, (name, v) ∈ ms)
    {p : Json F64 → α → Prop} (h : ∀ v, (name, v) ∈ ms → ∃ a, decode v = some a ∧ p v a) :
    ∃ a, Decode.required (Decode.lookup ms name) decode = some a ∧
      ∀ v, (name, v) ∈ ms → p v a := by
  obtain ⟨v, hv⟩ := hreq
  obtain ⟨a, ha, hp⟩ := h v hv
  have hlookup := lookup_of_mem hnd hv
  refine ⟨a, by rw [hlookup]; exact ha, fun w hw => ?_⟩
  rw [lookup_of_mem hnd hw] at hlookup
  cases hlookup
  exact hp

/-- A member that may be missing is decoded, or absent. -/
theorem defaulted_read (hnd : (ms.map (·.1)).Nodup) {p : Json F64 → Option α → Prop}
    (h : ∀ v, (name, v) ∈ ms → ∃ o, Decode.nullable decode v = some o ∧ p v o) :
    ∃ o, Decode.defaulted (Decode.lookup ms name) decode = some o ∧
      (∀ v, (name, v) ∈ ms → p v o) ∧ (o ≠ none → ∃ v, (name, v) ∈ ms) := by
  by_cases hmem : ∃ v, (name, v) ∈ ms
  · obtain ⟨v, hv⟩ := hmem
    obtain ⟨o, ho, hp⟩ := h v hv
    have hlookup := lookup_of_mem hnd hv
    refine ⟨o, by rw [hlookup]; exact ho, fun w hw => ?_, fun _ => ⟨v, hv⟩⟩
    rw [lookup_of_mem hnd hw] at hlookup
    cases hlookup
    exact hp
  · refine ⟨none, ?_, fun v hv => absurd ⟨v, hv⟩ hmem, fun h => absurd rfl h⟩
    rw [lookup_of_not_mem fun v hv => hmem ⟨v, hv⟩]
    rfl

end Members

/-- The schema allows no other members. -/
theorem property_name {m : String × Json F64}
    (h : (eventProperties.lookup m.1).getD never m.2 = true) :
    m.1 ∈ eventProperties.map (·.1) := by
  by_contra hnot
  have hnone : eventProperties.lookup m.1 = none :=
    List.lookup_eq_none_iff.mpr fun p hp => by
      have hne : m.1 ≠ p.1 := fun heq => hnot (heq ▸ List.mem_map_of_mem hp)
      simpa using hne
  rw [hnone] at h
  cases h

end CausalEvent

open CausalEvent

/-- An event in the order of another writer, with a null and an integral value. -/
def foreignEvent : List (String × Json F64) :=
  [("op", .str "report"), ("actor", .str "desk"), ("id", .str "desk:3"), ("lamport", .int 5),
   ("seq", .int 3), ("src", .null), ("value", .int (-3)),
   ("vclock", .obj [("feed", .int 2), ("desk", .int 3)])]

end Lichtung
