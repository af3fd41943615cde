import Lichtung.Lib.ProductOrder

/-!
# Vector clocks and Lamport stamps

Model of `crates/lichtung-clock/src/lib.rs` and of the string-keyed clock of the wire format.
A `BTreeMap` is an extensional tree map, so equal maps are the maps with equal entries, explicit
zero entries included.  The `u64` counters are natural numbers, and `Counter` says what adding one
to a counter does: results that do not name a `Counter` assume that none of the code overflows.

Principal results: `VectorClock.get_increment`, `VectorClock.get_merge`, `VectorClock.get_set`
(what each mutator does to every component), `VectorClock.partialCmp_eq` (the loop of `partial_cmp`
computes the product order of the components) and `VectorClock.Reached.canonical` (no mutator
stores a zero).
-/

namespace Lichtung

/-! ## Counters -/

/-- Adding one to a `u64`: what the build makes of a sum out of range is left open. -/
class Counter where
  succ : Nat → Nat
  succ_le : ∀ n, succ n ≤ n + 1
  succ_of_lt : ∀ n, n + 1 < 2 ^ 64 → succ n = n + 1

/-- No sum is out of range. -/
instance (priority := low) Counter.unbounded : Counter where
  succ n := n + 1
  succ_le _ := Nat.le_refl _
  succ_of_lt _ _ := rfl

/-- A release build wraps around. -/
@[reducible] def Counter.wrapping : Counter where
  succ n := (n + 1) % 2 ^ 64
  succ_le n := Nat.mod_le (n + 1) (2 ^ 64)
  succ_of_lt _ h := Nat.mod_eq_of_lt h

@[simp] theorem Counter.succ_eq (n : Nat) : Counter.succ n = n + 1 := rfl

/-! ## Actors and clock maps -/

/-- `ActorId(Arc<str>)`: compared, ordered and displayed as its string. -/
abbrev ActorId := String

/-- `BTreeMap<String, u64>`. -/
abbrev StringMap := Std.ExtTreeMap String Nat

/-- The components of a clock map, a missing key reading as 0
(`get(k).copied().unwrap_or(0)`). -/
def StringMap.components (m : StringMap) : String → Nat := fun k => m.getD k 0

theorem components_eq_zero {m : StringMap} {k : String} (h : k ∉ m.keys) : m.components k = 0 := by
  rw [Std.ExtTreeMap.mem_keys] at h
  exact Std.ExtTreeMap.getD_eq_fallback h

theorem StringMap.agreeOff_keys (a b : StringMap) :
    ProductOrder.AgreeOff (a.keys ++ b.keys) a.components b.components := by
  intro k hk
  rw [List.mem_append, not_or] at hk
  rw [components_eq_zero hk.1, components_eq_zero hk.2]

/-! ## Lamport stamps -/

structure Lamport where
  val : Nat
  deriving DecidableEq, Repr

/-- `Lamport::default()`. -/
def Lamport.zero : Lamport := ⟨0⟩

/-- Local event: advance and return the new stamp. -/
def Lamport.tick [Counter] (l : Lamport) : Lamport := ⟨Counter.succ l.val⟩

/-- Receive a message stamped `other`: max then advance. -/
def Lamport.update [Counter] (l other : Lamport) : Lamport :=
  ⟨Counter.succ (max l.val other.val)⟩

@[simp] theorem Lamport.tick_val (l : Lamport) : l.tick.val = l.val + 1 := rfl

@[simp] theorem Lamport.update_val (l other : Lamport) :
    (l.update other).val = max l.val other.val + 1 := rfl

/-! ## Vector clocks -/

/-- `VectorClock(BTreeMap<ActorId, u64>)`.  Lean's `=` is equality of the stored entries, as in a
recorded event's `vclock`; the code's own `==` on clocks reads missing entries as 0. -/
structure VectorClock where
  entries : StringMap
  deriving DecidableEq

namespace VectorClock

def new : VectorClock := ⟨∅⟩

def get (v : VectorClock) (actor : ActorId) : Nat := v.entries.getD actor 0

/-- `set`: a zero removes the entry. -/
def set (v : VectorClock) (actor : ActorId) (value : Nat) : VectorClock :=
  if value = 0 then ⟨v.entries.erase actor⟩ else ⟨v.entries.insert actor value⟩

/-- `*entry(actor).or_insert(0) += 1`. -/
def increment [Counter] (v : VectorClock) (actor : ActorId) : VectorClock :=
  ⟨v.entries.insert actor (Counter.succ (v.get actor))⟩

/-- One turn of the loop in `merge`. -/
def mergeEntry (v : VectorClock) (actor : ActorId) (x : Nat) : VectorClock :=
  let new := max (v.get actor) x
  if new = 0 then ⟨v.entries.erase actor⟩ else ⟨v.entries.insert actor new⟩

/-- `merge`: the loop runs over the entries of `other`. -/
def merge (v other : VectorClock) : VectorClock :=
  other.entries.foldl mergeEntry v

/-- Wire form: actor-name to counter. -/
def toStringMap (v : VectorClock) : StringMap := v.entries

@[simp] theorem get_new (k : ActorId) : new.get k = 0 := by
  simp [new, get]

@[simp] theorem components_toStringMap (v : VectorClock) : v.toStringMap.components = v.get := rfl

theorem get_set (v : VectorClock) (a k : ActorId) (x : Nat) :
    (v.set a x).get k = if k = a then x else v.get k := by
  unfold set get
  split
  · rename_i hx
    by_cases hk : k = a
    · subst hk; simp [hx]
    · simp [Std.ExtTreeMap.getD_erase, hk, Ne.symm hk]
  · by_cases hk : k = a
    · subst hk; simp
    · simp [Std.ExtTreeMap.getD_insert, hk, Ne.symm hk]

theorem get_increment_succ [Counter] (v : VectorClock) (a k : ActorId) :
    (v.increment a).get k = if k = a then Counter.succ (v.get a) else v.get k := by
  by_cases hk : k = a
  · subst hk; simp [increment, get]
  · simp [increment, get, Std.ExtTreeMap.getD_insert, hk, Ne.symm hk]

theorem get_increment (v : VectorClock) (a k : ActorId) :
    (v.increment a).get k = if k = a then v.get a + 1 else v.get k :=
  v.get_increment_succ a k

theorem get_mergeEntry (v : VectorClock) (a k : ActorId) (x : Nat) :
    (v.mergeEntry a x).get k = if k = a then max (v.get a) x else v.get k :=
  get_set v a k (max (v.get a) x)

/-! ### Loops over the entries of a map -/

section Loop

variable {upd : VectorClock → ActorId → Nat → VectorClock} {f : Nat → Nat → Nat}

theorem get_foldl_of_not_mem
    (hupd : ∀ v a k x, (upd v a x).get k = if k = a then f (v.get a) x else v.get k)
    {k : ActorId} : ∀ (l : List (ActorId × Nat)) (v : VectorClock), (∀ p ∈ l, p.1 ≠ k) →
      (l.foldl (fun v p => upd v p.1 p.2) v).get k = v.get k
  | [], _, _ => rfl
  | p :: l, v, h => by
    have hp : k ≠ p.1 := fun he => h p (List.mem_cons_self ..) he.symm
    rw [List.foldl_cons, get_foldl_of_not_mem hupd l _
      (fun q hq => h q (List.mem_cons_of_mem _ hq)), hupd, if_neg hp]

theorem get_foldl_of_mem
    (hupd : ∀ v a k x, (upd v a x).get k = if k = a then f (v.get a) x else v.get k)
    {k : ActorId} {x : Nat} : ∀ (l : List (ActorId × Nat)) (v : VectorClock),
      (l.map (·.1)).Nodup → (k, x) ∈ l →
      (l.foldl (fun v p => upd v p.1 p.2) v).get k = f (v.get k) x
  | [], _, _, h => by cases h
  | p :: l, v, hnd, h => by
    simp only [List.map_cons, List.nodup_cons, List.mem_map, not_exists, not_and] at hnd
    rw [List.foldl_cons]
    rcases List.mem_cons.mp h with rfl | hl
    · -- the later entries have other keys
      rw [get_foldl_of_not_mem hupd l _ (fun q hq he => hnd.1 q hq he), hupd, if_pos rfl]
    · have hne : k ≠ p.1 := fun he => hnd.1 (k, x) hl he
      rw [get_foldl_of_mem hupd l _ hnd.2 hl, hupd, if_neg hne]

/-- A loop that updates one component for each entry of a map, where a zero changes nothing. -/
theorem get_foldl_entries
    (hupd : ∀ v a k x, (upd v a x).get k = if k = a then f (v.get a) x else v.get k)
    (m : StringMap) {v : VectorClock} {k : ActorId} (hzero : f (v.get k) 0 = v.get k) :
    (m.foldl upd v).get k = f (v.get k) (m.components k) := by
  have hnd : (m.toList.map (·.1)).Nodup := by
    rw [Std.ExtTreeMap.map_fst_toList_eq_keys]
    exact Std.ExtTreeMap.nodup_keys
  have hcomp : m.components k = m[k]?.getD 0 := Std.ExtTreeMap.getD_eq_getD_getElem?
  rw [Std.ExtTreeMap.foldl_eq_foldl_toList, hcomp]
  cases hx : m[k]? with
  | none =>
    have hk : ∀ p ∈ m.toList, p.1 ≠ k := by
      rintro ⟨a, x⟩ hp rfl
      rw [Std.ExtTreeMap.mem_toList_iff_getElem?_eq_some, hx] at hp
      cases hp
    rw [get_foldl_of_not_mem hupd _ _ hk]
    exact hzero.symm
  | some x =>
    exact get_foldl_of_mem hupd _ _ hnd (Std.ExtTreeMap.mem_toList_iff_getElem?_eq_some.mpr hx)

end Loop

/-- **`merge` is the componentwise maximum.** -/
theorem get_merge (v other : VectorClock) (k : ActorId) :
    (v.merge other).get k = max (v.get k) (other.get k) :=
  get_foldl_entries get_mergeEntry other.entries (Nat.max_zero _)

/-! ### Order -/

/-- The loop of `partial_cmp` over the chained keys. -/
def partialCmpLoop (a b : VectorClock) : List ActorId → Bool → Bool → Option Ordering
  | [], false, false => some .eq
  | [], true, false => some .lt
  | [], false, true => some .gt
  | [], true, true => none
  | key :: keys, sawLess, sawGreater =>
    let x := a.get key
    let y := b.get key
    let sawLess' := if x < y then true else sawLess
    let sawGreater' := if x < y then sawGreater else if x > y then true else sawGreater
    if sawLess' = true ∧ sawGreater' = true then none -- incomparable, hence concurrent
    else partialCmpLoop a b keys sawLess' sawGreater'

def partialCmp (a b : VectorClock) : Option Ordering :=
  partialCmpLoop a b (a.entries.keys ++ b.entries.keys) false false

/-- `PartialEq::eq`: all actors have the same counter, a missing one reading as 0. -/
def eq (a b : VectorClock) : Bool :=
  (Std.ExtTreeSet.ofList (a.entries.keys ++ b.entries.keys)).toList.all fun k => a.get k == b.get k

/-- `PartialOrd::le`, from `partial_cmp`. -/
def le (a b : VectorClock) : Bool := a.partialCmp b == some .lt || a.partialCmp b == some .eq

/-- `PartialOrd::ge`, from `partial_cmp`. -/
def ge (a b : VectorClock) : Bool := a.partialCmp b == some .gt || a.partialCmp b == some .eq

def happensBefore (a b : VectorClock) : Bool := a.partialCmp b == some .lt

def concurrent (a b : VectorClock) : Bool := (a.partialCmp b).isNone

open ProductOrder

theorem partialCmpLoop_eq (a b : VectorClock) : ∀ (ks : List ActorId) (sawLess sawGreater : Bool),
    partialCmpLoop a b ks sawLess sawGreater =
      ofSeen (sawLess || decide (∃ k ∈ ks, a.get k < b.get k))
        (sawGreater || decide (∃ k ∈ ks, b.get k < a.get k))
  | [], sawLess, sawGreater => by
    cases sawLess <;> cases sawGreater <;> simp [partialCmpLoop, ofSeen]
  | key :: keys, sawLess, sawGreater => by
    simp only [partialCmpLoop, gt_iff_lt, List.exists_mem_cons_iff]
    rw [partialCmpLoop_eq a b keys]
    rcases lt_trichotomy (a.get key) (b.get key) with h | h | h
    · cases sawGreater <;> simp [h, h.not_gt, ofSeen]
    · cases sawLess <;> cases sawGreater <;> simp [h, ofSeen]
    · cases sawLess <;> simp [h, h.not_gt, ofSeen]

/-- **`partial_cmp` is the comparison of the components in the product order.** -/
theorem partialCmp_eq (a b : VectorClock) : a.partialCmp b = partialCompare a.get b.get := by
  have h : AgreeOff (a.entries.keys ++ b.entries.keys) a.get b.get :=
    a.entries.agreeOff_keys b.entries
  have hab := exists_lt_iff_of_agreeOff h
  have hba := exists_lt_iff_of_agreeOff h.symm
  rw [partialCmp, partialCmpLoop_eq, Bool.false_or, Bool.false_or]
  exact (partialCompare_pi (by rw [decide_eq_true_eq, hab]) (by rw [decide_eq_true_eq, hba])).symm

theorem eq_iff (a b : VectorClock) : a.eq b = true ↔ a.get = b.get := by
  have h : AgreeOff (a.entries.keys ++ b.entries.keys) a.get b.get :=
    a.entries.agreeOff_keys b.entries
  rw [← forall_eq_iff_of_agreeOff h]
  simp only [eq, List.all_eq_true, Std.ExtTreeSet.mem_toList, Std.ExtTreeSet.mem_ofList,
    List.contains_eq_mem, decide_eq_true_eq, beq_iff_eq]

theorem happensBefore_iff (a b : VectorClock) : a.happensBefore b = true ↔ a.get < b.get := by
  rw [happensBefore, beq_iff_eq, partialCmp_eq, partialCompare_lt]

theorem le_iff (a b : VectorClock) : a.le b = true ↔ a.get ≤ b.get := by
  rw [le, Bool.or_eq_true, beq_iff_eq, beq_iff_eq, partialCmp_eq, partialCompare_lt,
    partialCompare_eq, le_iff_lt_or_eq]

theorem ge_iff (a b : VectorClock) : a.ge b = true ↔ b.get ≤ a.get := by
  rw [ge, Bool.or_eq_true, beq_iff_eq, beq_iff_eq, partialCmp_eq, partialCompare_gt,
    partialCompare_eq, le_iff_lt_or_eq, eq_comm]

/-! ### Canonical clocks -/

/-- No stored entry is zero. -/
def Canonical (v : VectorClock) : Prop := ∀ (k : ActorId) (x : Nat), v.entries[k]? = some x → x ≠ 0

/-- The clocks built with the mutators.  Counters are unbounded here, so every history of the code
in which no counter overflows is included. -/
inductive Reached : VectorClock → Prop
  | new : Reached new
  | set {v : VectorClock} (hv : Reached v) (actor : ActorId) (value : Nat) :
      Reached (v.set actor value)
  | increment {v : VectorClock} (hv : Reached v) (actor : ActorId) : Reached (v.increment actor)
  | merge {v other : VectorClock} (hv : Reached v) (ho : Reached other) : Reached (v.merge other)

theorem canonical_new : Canonical new := by
  simp [Canonical, new]

theorem Canonical.insert {v : VectorClock} (hv : v.Canonical) (actor : ActorId) {value : Nat}
    (hne : value ≠ 0) : Canonical ⟨v.entries.insert actor value⟩ := by
  intro k x hx
  rw [Std.ExtTreeMap.getElem?_insert] at hx
  split at hx
  · cases hx; exact hne
  · exact hv k x hx

theorem Canonical.set {v : VectorClock} (hv : v.Canonical) (actor : ActorId) (value : Nat) :
    (v.set actor value).Canonical := by
  unfold VectorClock.set
  split
  · -- the entry is removed
    intro k x hx
    rw [Std.ExtTreeMap.getElem?_erase] at hx
    split at hx
    · cases hx
    · exact hv k x hx
  · rename_i hne
    exact hv.insert actor hne

theorem Canonical.increment {v : VectorClock} (hv : v.Canonical) (actor : ActorId) :
    (v.increment actor).Canonical :=
  hv.insert actor (Nat.succ_ne_zero _)

theorem Canonical.merge {v : VectorClock} (hv : v.Canonical) (other : VectorClock) :
    (v.merge other).Canonical := by
  unfold VectorClock.merge
  rw [Std.ExtTreeMap.foldl_eq_foldl_toList]
  induction other.entries.toList generalizing v with
  | nil => exact hv
  | cons p l ih => exact ih (hv.set p.1 (max (v.get p.1) p.2))

/-- **The mutators keep clocks canonical.** -/
theorem Reached.canonical {v : VectorClock} (h : Reached v) : v.Canonical := by
  induction h with
  | new => exact canonical_new
  | set _ actor value ih => exact ih.set actor value
  | increment _ actor ih => exact ih.increment actor
  | merge _ _ ih _ => exact ih.merge _

theorem Canonical.getElem? {v : VectorClock} (hv : v.Canonical) (k : ActorId) :
    v.entries[k]? = if v.get k = 0 then none else some (v.get k) := by
  unfold get
  rw [Std.ExtTreeMap.getD_eq_getD_getElem?]
  cases hx : v.entries[k]? with
  | none => rfl
  | some x => simp [hv k x hx]

/-- Canonical clocks with the same components store the same entries. -/
theorem Canonical.ext {v w : VectorClock} (hv : v.Canonical) (hw : w.Canonical)
    (h : v.get = w.get) : v = w := by
  have hentries : v.entries = w.entries := by
    refine Std.ExtTreeMap.ext_getElem? fun k => ?_
    rw [hv.getElem?, hw.getElem?, h]
  cases v; cases w; cases hentries; rfl

end VectorClock

end Lichtung
