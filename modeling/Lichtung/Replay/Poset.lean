import Lichtung.Core
import Lichtung.Lib.Graph
import Lichtung.Lib.KeyOrder

/-!
# Reconstructing the happens-before poset

Model of `crates/lichtung-replay/src/poset.rs` and `error.rs`: `hb_strict`, `Poset::build` and
`Poset::validate`.  Nodes are indices into the log, so the edges of a `Poset` are in range by
construction.

Principal results: `hbStrict_iff` (the loop over both key sets computes the strict product order
on components), `build_ok_iff` (which logs `build` accepts) and `path_iff` (what is reachable along
the edges it reconstructs).
-/

namespace Lichtung

/-- The errors reconstruction and linearization can return. -/
inductive ReplayError where
  | missingEmit (id msgId : String)
  | duplicateEmit (msgId : String)
  | duplicateSeq (actor : String) (seq : Nat)
  | inconsistent (a b : String)
  | cycle (unscheduled : Nat)
  deriving DecidableEq

/-- The variants of `ReplayError`. -/
inductive ErrorKind where
  | missingEmit
  | duplicateEmit
  | duplicateSeq
  | inconsistent
  | cycle
  deriving DecidableEq

def ReplayError.kind : ReplayError → ErrorKind
  | .missingEmit .. => .missingEmit
  | .duplicateEmit .. => .duplicateEmit
  | .duplicateSeq .. => .duplicateSeq
  | .inconsistent .. => .inconsistent
  | .cycle .. => .cycle

/-! ## Clock order on wire maps -/

/-- The loop of `hb_strict` over the chained keys. -/
def hbStrictLoop (a b : StringMap) : List String → Bool → Bool
  | [], sawLess => sawLess
  | k :: ks, sawLess =>
    let x := a.components k
    let y := b.components k
    if x > y then false -- `a` exceeds `b` somewhere
    else if x < y then hbStrictLoop a b ks true
    else hbStrictLoop a b ks sawLess

/-- Strict product order on string-keyed clocks. -/
def hbStrict (a b : StringMap) : Bool := hbStrictLoop a b (a.keys ++ b.keys) false

theorem hbStrictLoop_iff (a b : StringMap) : ∀ (ks : List String) (sawLess : Bool),
    hbStrictLoop a b ks sawLess = true ↔
      (∀ k ∈ ks, a.components k ≤ b.components k) ∧
        (sawLess = true ∨ ∃ k ∈ ks, a.components k < b.components k)
  | [], sawLess => by simp [hbStrictLoop]
  | k :: ks, sawLess => by
    unfold hbStrictLoop
    simp only [gt_iff_lt, List.forall_mem_cons, List.exists_mem_cons_iff]
    split
    · rename_i h
      exact iff_of_false Bool.false_ne_true fun hc => absurd hc.1.1 (by omega)
    · rename_i h
      split
      · rename_i hlt
        rw [hbStrictLoop_iff a b ks true]
        simp [hlt, Nat.le_of_lt hlt]
      · rename_i hnlt
        rw [hbStrictLoop_iff a b ks sawLess]
        simp [hnlt, Nat.le_of_not_lt h]

/-- **`hb_strict` is the strict product order on components.** -/
theorem hbStrict_iff (a b : StringMap) : hbStrict a b = true ↔ a.components < b.components := by
  rw [hbStrict, hbStrictLoop_iff, ← ProductOrder.lt_iff_of_agreeOff (a.agreeOff_keys b)]
  simp only [Bool.false_eq_true, false_or]

/-! ## The poset -/

/-- `Poset`: the log and the direct causal edges between its indices. -/
structure Poset where
  events : List CausalEvent
  edges : List (Fin events.length × Fin events.length)

/-- `events[i]`. -/
def eventAt (events : List CausalEvent) (i : Fin events.length) : CausalEvent := events.get i

theorem eventAt_mem (events : List CausalEvent) (i : Fin events.length) :
    eventAt events i ∈ events :=
  List.get_mem events i

theorem exists_eventAt {events : List CausalEvent} {e : CausalEvent} (h : e ∈ events) :
    ∃ i, eventAt events i = e :=
  List.get_of_mem h

theorem map_eventAt (events : List CausalEvent) :
    (List.finRange events.length).map (eventAt events) = events := by
  have h : eventAt events = events.get := rfl
  rw [h, ← List.ofFn_eq_map, List.ofFn_get]

namespace Poset

section Build

variable (events : List CausalEvent)

/-- `by_actor`: the indices of each actor's events, in log order. -/
def byActor : Std.ExtTreeMap String (List (Fin events.length)) :=
  (List.finRange events.length).foldl
    (fun m i => m.insert (eventAt events i).actor (m.getD (eventAt events i).actor [] ++ [i])) ∅

/-- `s.sort_by_key(|&i| events[i].seq)`, a stable sort. -/
def sortBySeq (idxs : List (Fin events.length)) : List (Fin events.length) :=
  idxs.insertionSort fun i j => (eventAt events i).seq ≤ (eventAt events j).seq

/-- The loop over `s.windows(2)`. -/
def windowEdges (actor : String) :
    List (Fin events.length) → Except ReplayError (List (Fin events.length × Fin events.length))
  | i :: j :: s =>
    if (eventAt events i).seq = (eventAt events j).seq then
      .error (.duplicateSeq actor (eventAt events i).seq)
    else do
      let es ← windowEdges actor (j :: s)
      return (i, j) :: es
  | _ => .ok []

/-- (a) program-order edges, actor by actor. -/
def programEdges : List (String × List (Fin events.length)) →
    Except ReplayError (List (Fin events.length × Fin events.length))
  | [] => .ok []
  | (actor, idxs) :: rest => do
    let es ← windowEdges events actor (sortBySeq events idxs)
    let more ← programEdges rest
    return es ++ more

/-- `emit_of`: the emit of each msg_id; an emit without a msg_id is passed over. -/
def emitOf : List (Fin events.length) → (String → Option (Fin events.length)) →
    Except ReplayError (String → Option (Fin events.length))
  | [], m => .ok m
  | i :: is, m =>
    if (eventAt events i).op = .emit then
      match (eventAt events i).msgId with
      | some s =>
        if (m s).isSome then .error (.duplicateEmit s)
        else emitOf is (Function.update m s (some i))
      | none => emitOf is m
    else emitOf is m

/-- (b) message edges: a recv without a msg_id looks up the empty string. -/
def messageEdges (m : String → Option (Fin events.length)) :
    List (Fin events.length) → Except ReplayError (List (Fin events.length × Fin events.length))
  | [] => .ok []
  | i :: is =>
    if (eventAt events i).op = .recv then
      let s := (eventAt events i).msgId.getD ""
      match m s with
      | none => .error (.missingEmit (eventAt events i).id s)
      | some e => do
        let es ← messageEdges m is
        return (e, i) :: es
    else messageEdges m is

def buildEdges : Except ReplayError (List (Fin events.length × Fin events.length)) := do
  let program ← programEdges events (byActor events).toList
  let m ← emitOf events (List.finRange events.length) fun _ => none
  let message ← messageEdges events m (List.finRange events.length)
  return program ++ message

/-- `Poset::build`. -/
def build : Except ReplayError Poset := do
  let edges ← buildEdges events
  return ⟨events, edges⟩

end Build

/-- The loop of `validate`. -/
def validateEdges (p : Poset) :
    List (Fin p.events.length × Fin p.events.length) → Except ReplayError Unit
  | [] => .ok ()
  | (a, b) :: es =>
    if hbStrict (eventAt p.events a).vclock (eventAt p.events b).vclock then validateEdges p es
    else .error (.inconsistent (eventAt p.events a).id (eventAt p.events b).id)

/-- `Poset::validate`: every edge is reflected in the recorded vector clocks. -/
def validate (p : Poset) : Except ReplayError Unit := p.validateEdges p.edges

end Poset

/-! ## What `build` accepts -/

/-- The msg_id an emit is found under. -/
def CausalEvent.sent (e : CausalEvent) : Option String := if e.op = .emit then e.msgId else none

/-- The msg_id a recv looks its emit up under; an absent one reads as the empty string. -/
def CausalEvent.wanted (e : CausalEvent) : Option String :=
  if e.op = .recv then some (e.msgId.getD "") else none

theorem CausalEvent.sent_eq_some {e : CausalEvent} {s : String} :
    e.sent = some s ↔ e.op = .emit ∧ e.msgId = some s := by
  unfold CausalEvent.sent
  split
  · rename_i h; simp [h]
  · rename_i h; simp [h]

theorem CausalEvent.wanted_eq_some {e : CausalEvent} {s : String} :
    e.wanted = some s ↔ e.op = .recv ∧ e.msgId.getD "" = s := by
  unfold CausalEvent.wanted
  split
  · rename_i h; simp [h]
  · rename_i h; simp [h]

/-- Same actor, smaller seq. -/
def ProgramOrder (a b : CausalEvent) : Prop := a.actor = b.actor ∧ a.seq < b.seq

/-- An emit and a recv that looks it up. -/
def Paired (a b : CausalEvent) : Prop := ∃ s, a.sent = some s ∧ b.wanted = some s

/-- What `build` asks of a log. -/
structure WellFormed (log : List CausalEvent) : Prop where
  coords : (log.map fun e => (e.actor, e.seq)).Nodup
  emits : (log.filterMap CausalEvent.sent).Nodup
  recvs : ∀ r ∈ log, ∀ s, r.wanted = some s → ∃ e ∈ log, e.sent = some s

theorem WellFormed.perm {log log' : List CausalEvent} (h : WellFormed log) (hp : log.Perm log') :
    WellFormed log' where
  coords := (hp.map _).nodup_iff.mp h.coords
  emits := (hp.filterMap _).nodup_iff.mp h.emits
  recvs := by
    intro r hr s hs
    obtain ⟨e, he, hes⟩ := h.recvs r (hp.mem_iff.mpr hr) s hs
    exact ⟨e, hp.mem_iff.mp he, hes⟩

theorem WellFormed.nodup {log : List CausalEvent} (h : WellFormed log) : log.Nodup :=
  h.coords.of_map

theorem WellFormed.eq_of_coords {log : List CausalEvent} (h : WellFormed log) {e f : CausalEvent}
    (he : e ∈ log) (hf : f ∈ log) (hactor : e.actor = f.actor) (hseq : e.seq = f.seq) : e = f :=
  List.inj_on_of_nodup_map h.coords he hf (Prod.ext hactor hseq)

/-- Ids that are made of the coordinates are distinct. -/
theorem WellFormed.eq_of_id {log : List CausalEvent} (h : WellFormed log) {e f : CausalEvent}
    (he : e ∈ log) (hf : f ∈ log) (hide : e.id = idOf e.actor e.seq)
    (hidf : f.id = idOf f.actor f.seq) (hid : e.id = f.id) : e = f := by
  rw [hide, hidf] at hid
  exact h.eq_of_coords he hf (idOf_inj.mp hid).1 (idOf_inj.mp hid).2

theorem Except.bind_eq_ok {ε β γ : Type} {x : Except ε β} {f : β → Except ε γ} {c : γ} :
    (x >>= f) = .ok c ↔ ∃ b, x = .ok b ∧ f b = .ok c := by
  cases x with
  | error e => exact iff_of_false (fun h => by cases h) (fun ⟨_, h, _⟩ => by cases h)
  | ok b => exact ⟨fun h => ⟨b, rfl, h⟩, fun ⟨_, h, hc⟩ => by cases h; exact hc⟩

namespace Poset

variable {events : List CausalEvent}

theorem windowEdges_ok {actor : String} : ∀ {s : List (Fin events.length)}
    {es : List (Fin events.length × Fin events.length)},
    windowEdges events actor s = .ok es ↔
      s.IsChain (fun i j => (eventAt events i).seq ≠ (eventAt events j).seq) ∧ es = s.zip s.tail
  | [], es => by simp [windowEdges, eq_comm]
  | [i], es => by simp [windowEdges, eq_comm]
  | i :: j :: s, es => by
    unfold windowEdges
    split
    · rename_i h
      exact iff_of_false (fun h => by cases h) fun hc => (List.isChain_cons_cons.mp hc.1).1 h
    · rename_i h
      rw [Except.bind_eq_ok]
      constructor
      · rintro ⟨es', h', he⟩
        obtain ⟨hc, rfl⟩ := windowEdges_ok.mp h'
        cases he
        exact ⟨List.isChain_cons_cons.mpr ⟨h, hc⟩, rfl⟩
      · rintro ⟨hc, rfl⟩
        exact ⟨_, windowEdges_ok.mpr ⟨(List.isChain_cons_cons.mp hc).2, rfl⟩, rfl⟩

theorem programEdges_ok : ∀ {groups : List (String × List (Fin events.length))}
    {es : List (Fin events.length × Fin events.length)},
    programEdges events groups = .ok es ↔
      (∀ g ∈ groups, (sortBySeq events g.2).IsChain
        (fun i j => (eventAt events i).seq ≠ (eventAt events j).seq)) ∧
      es = groups.flatMap fun g => (sortBySeq events g.2).zip (sortBySeq events g.2).tail
  | [], es => by simp [programEdges, eq_comm]
  | (actor, idxs) :: rest, es => by
    simp only [programEdges, Except.bind_eq_ok, windowEdges_ok, @programEdges_ok rest,
      List.forall_mem_cons, List.flatMap_cons]
    constructor
    · rintro ⟨es₁, ⟨hc, rfl⟩, es₂, ⟨hr, rfl⟩, he⟩
      cases he
      exact ⟨⟨hc, hr⟩, rfl⟩
    · rintro ⟨⟨hc, hr⟩, rfl⟩
      exact ⟨_, ⟨hc, rfl⟩, _, ⟨hr, rfl⟩, rfl⟩

/-! ### The actor index -/

theorem getD_foldl_byActor (a : String) : ∀ (is : List (Fin events.length))
    (m : Std.ExtTreeMap String (List (Fin events.length))),
    (is.foldl (fun m i => m.insert (eventAt events i).actor
        (m.getD (eventAt events i).actor [] ++ [i])) m).getD a [] =
      m.getD a [] ++ is.filter fun i => (eventAt events i).actor = a
  | [], m => by simp
  | i :: is, m => by
    rw [List.foldl_cons, getD_foldl_byActor a is, Std.ExtTreeMap.getD_insert]
    by_cases h : (eventAt events i).actor = a
    · subst h; simp
    · rw [List.filter_cons_of_neg (by simpa using h), if_neg (by simpa using h)]

theorem mem_foldl_byActor (a : String) : ∀ (is : List (Fin events.length))
    (m : Std.ExtTreeMap String (List (Fin events.length))),
    a ∈ is.foldl (fun m i => m.insert (eventAt events i).actor
        (m.getD (eventAt events i).actor [] ++ [i])) m ↔
      a ∈ m ∨ ∃ i ∈ is, (eventAt events i).actor = a
  | [], m => by simp
  | i :: is, m => by
    rw [List.foldl_cons, mem_foldl_byActor a is, Std.ExtTreeMap.mem_insert]
    simp only [Std.LawfulEqCmp.compare_eq_iff_eq, List.exists_mem_cons_iff]
    tauto

/-- The groups `build` sorts: for every actor of the log, the indices of its events. -/
theorem mem_byActor {g : String × List (Fin events.length)} :
    g ∈ (byActor events).toList ↔
      g.2 = ((List.finRange events.length).filter fun i => (eventAt events i).actor = g.1) ∧
        ∃ i, (eventAt events i).actor = g.1 := by
  obtain ⟨a, l⟩ := g
  have hget : (byActor events).getD a [] =
      (List.finRange events.length).filter fun i => (eventAt events i).actor = a := by
    rw [byActor, getD_foldl_byActor]; simp
  have hmem : a ∈ byActor events ↔ ∃ i, (eventAt events i).actor = a := by
    rw [byActor, mem_foldl_byActor]; simp
  rw [Std.ExtTreeMap.mem_toList_iff_getElem?_eq_some, ← hmem, ← hget]
  rw [Std.ExtTreeMap.getD_eq_getD_getElem?, Std.ExtTreeMap.mem_iff_isSome_getElem?]
  cases (byActor events)[a]? with
  | none => simp
  | some l' => simp [eq_comm]

/-! ### The sorted groups -/

theorem sortBySeq_perm (idxs : List (Fin events.length)) :
    (sortBySeq events idxs).Perm idxs :=
  List.perm_insertionSort _ idxs

theorem sortBySeq_le (idxs : List (Fin events.length)) :
    (sortBySeq events idxs).Pairwise fun i j => (eventAt events i).seq ≤ (eventAt events j).seq := by
  exact KeyOrder.insertionSort_le (fun i => (eventAt events i).seq) idxs

/-- Once the window check has passed, a sorted group is strictly increasing in `seq`. -/
theorem sortBySeq_lt {idxs : List (Fin events.length)}
    (h : (sortBySeq events idxs).IsChain fun i j => (eventAt events i).seq ≠ (eventAt events j).seq) :
    (sortBySeq events idxs).Pairwise fun i j => (eventAt events i).seq < (eventAt events j).seq := by
  exact KeyOrder.lt_of_isChain_ne (sortBySeq_le idxs) h

theorem mem_sortBySeq {g : String × List (Fin events.length)} (hg : g ∈ (byActor events).toList)
    {i : Fin events.length} : i ∈ sortBySeq events g.2 ↔ (eventAt events i).actor = g.1 := by
  rw [(sortBySeq_perm g.2).mem_iff, (mem_byActor.mp hg).1]
  simp

theorem sortBySeq_nodup {g : String × List (Fin events.length)}
    (hg : g ∈ (byActor events).toList) : (sortBySeq events g.2).Nodup := by
  rw [(sortBySeq_perm g.2).nodup_iff, (mem_byActor.mp hg).1]
  exact (List.nodup_finRange _).filter _

theorem coords_get_inj (h : (events.map fun e => (e.actor, e.seq)).Nodup)
    {i j : Fin events.length} (ha : (eventAt events i).actor = (eventAt events j).actor)
    (hs : (eventAt events i).seq = (eventAt events j).seq) : i = j := by
  have hinj := List.inj_on_of_nodup_map h (eventAt_mem events i) (eventAt_mem events j)
    (Prod.ext ha hs)
  exact (List.nodup_iff_injective_get.mp (List.Nodup.of_map _ h)) hinj

/-- The window checks pass exactly when no two events share a coordinate. -/
theorem chains_iff_coords :
    (∀ g ∈ (byActor events).toList, (sortBySeq events g.2).IsChain
      (fun i j => (eventAt events i).seq ≠ (eventAt events j).seq)) ↔
    (events.map fun e => (e.actor, e.seq)).Nodup := by
  constructor
  · intro h
    rw [← map_eventAt events, List.map_map]
    refine (List.nodup_finRange _).map_on fun i _ j _ hij => ?_
    obtain ⟨ha, hs⟩ := Prod.mk.inj hij
    obtain ⟨l, hl⟩ : ∃ l, l = (List.finRange events.length).filter
        fun k => (eventAt events k).actor = (eventAt events i).actor := ⟨_, rfl⟩
    have hg : ((eventAt events i).actor, l) ∈ (byActor events).toList :=
      mem_byActor.mpr ⟨hl, i, rfl⟩
    have hpw := sortBySeq_lt (h _ hg)
    have hi : i ∈ sortBySeq events l := (mem_sortBySeq hg).mpr rfl
    have hj : j ∈ sortBySeq events l := (mem_sortBySeq hg).mpr ha.symm
    exact KeyOrder.eq_of_key hpw hi hj hs
  · intro h g hg
    refine (List.Pairwise.imp_of_mem ?_ (sortBySeq_nodup hg)).isChain
    intro i j hi hj hne hs
    have ha := ((mem_sortBySeq hg).mp hi).trans ((mem_sortBySeq hg).mp hj).symm
    exact hne (coords_get_inj h ha hs)

/-! ### The message loops -/

theorem emitOf_cons (i : Fin events.length) (is : List (Fin events.length))
    (m : String → Option (Fin events.length)) :
    emitOf events (i :: is) m = match (eventAt events i).sent with
      | some s => if (m s).isSome then .error (.duplicateEmit s)
          else emitOf events is (Function.update m s (some i))
      | none => emitOf events is m := by
  simp only [emitOf, CausalEvent.sent]
  by_cases h : (eventAt events i).op = .emit
  · simp only [if_pos h]
  · simp only [if_neg h]

theorem emitOf_ok : ∀ {is : List (Fin events.length)} {m m' : String → Option (Fin events.length)},
    emitOf events is m = .ok m' ↔
      (∀ i ∈ is, ∀ s, (eventAt events i).sent = some s → m s = none) ∧
      is.Pairwise (fun i j => ∀ s, (eventAt events i).sent = some s → (eventAt events j).sent ≠ some s) ∧
      m' = fun s => (m s).or (is.find? fun i => (eventAt events i).sent = some s)
  | [], m, m' => by simp [emitOf, eq_comm]
  | i :: is, m, m' => by
    rw [emitOf_cons]
    cases hi : (eventAt events i).sent with
    | none =>
      simp [@emitOf_ok is, hi]
    | some s =>
      by_cases hm : (m s).isSome
      · simp only [hm, if_true]
        refine iff_of_false (fun h => by cases h) fun h => ?_
        rw [h.1 i (List.mem_cons_self ..) s hi] at hm
        cases hm
      · rw [Option.not_isSome_iff_eq_none] at hm
        simp only [hm, Option.isSome_none, Bool.false_eq_true, if_false, @emitOf_ok is,
          List.forall_mem_cons, List.pairwise_cons]
        have hres : (fun t => (Function.update m s (some i) t).or
              (is.find? fun j => (eventAt events j).sent = some t)) =
            fun t => (m t).or ((i :: is).find? fun j => (eventAt events j).sent = some t) := by
          funext t
          by_cases ht : t = s
          · subst ht; simp [hi, hm]
          · have : (eventAt events i).sent ≠ some t := by rw [hi]; simpa using Ne.symm ht
            simp [Function.update_of_ne ht, this]
        rw [hres]
        constructor
        · rintro ⟨h1, h2, h3⟩
          refine ⟨⟨fun t ht => ?_, fun j hj t ht => ?_⟩, ⟨fun j hj t ht => ?_, h2⟩, h3⟩
          · cases hi.symm.trans ht; exact hm
          · have := h1 j hj t ht
            by_cases hts : t = s
            · rw [hts]; exact hm
            · rwa [Function.update_of_ne hts] at this
          · cases hi.symm.trans ht
            intro hj'
            have := h1 j hj s hj'
            simp at this
        · rintro ⟨⟨-, h1⟩, ⟨h2, h3⟩, h4⟩
          refine ⟨fun j hj t ht => ?_, h3, h4⟩
          have hts : t ≠ s := by rintro rfl; exact h2 j hj t hi ht
          rw [Function.update_of_ne hts]
          exact h1 j hj t ht

theorem messageEdges_skip {m : String → Option (Fin events.length)} {i : Fin events.length}
    {is : List (Fin events.length)} (h : (eventAt events i).wanted = none) :
    messageEdges events m (i :: is) = messageEdges events m is := by
  unfold CausalEvent.wanted at h
  rw [messageEdges]
  split at h
  · cases h
  · rename_i hop
    rw [if_neg hop]

theorem messageEdges_missing {m : String → Option (Fin events.length)} {i : Fin events.length}
    {is : List (Fin events.length)} {s : String} (h : (eventAt events i).wanted = some s)
    (hm : m s = none) :
    messageEdges events m (i :: is) = .error (.missingEmit (eventAt events i).id s) := by
  unfold CausalEvent.wanted at h
  rw [messageEdges]
  split at h
  · rename_i hop
    cases h
    rw [if_pos hop]
    dsimp only
    rw [hm]
  · cases h

theorem messageEdges_found {m : String → Option (Fin events.length)} {i e : Fin events.length}
    {is : List (Fin events.length)} {s : String} (h : (eventAt events i).wanted = some s)
    (hm : m s = some e) :
    messageEdges events m (i :: is) =
      (messageEdges events m is >>= fun es => .ok ((e, i) :: es)) := by
  unfold CausalEvent.wanted at h
  rw [messageEdges]
  split at h
  · rename_i hop
    cases h
    rw [if_pos hop]
    dsimp only
    rw [hm]
    rfl
  · cases h

theorem messageEdges_ok {m : String → Option (Fin events.length)} :
    ∀ {is : List (Fin events.length)} {es : List (Fin events.length × Fin events.length)},
    messageEdges events m is = .ok es ↔
      (∀ i ∈ is, ∀ s, (eventAt events i).wanted = some s → (m s).isSome) ∧
      es = is.filterMap fun i => ((eventAt events i).wanted.bind m).map fun e => (e, i)
  | [], es => ⟨fun h => by cases h; simp, fun h => by rw [h.2]; rfl⟩
  | i :: is, es => by
    cases hi : (eventAt events i).wanted with
    | none =>
      rw [messageEdges_skip hi, messageEdges_ok]
      simp [hi]
    | some s =>
      cases hm : m s with
      | none =>
        rw [messageEdges_missing hi hm]
        simp [hi, hm]
      | some e =>
        rw [messageEdges_found hi hm, Except.bind_eq_ok]
        simp only [@messageEdges_ok m is, List.forall_mem_cons, hi, Option.some.injEq,
          forall_eq', hm, Option.isSome_some, true_and, List.filterMap_cons, Option.bind_some,
          Option.map_some]
        constructor
        · rintro ⟨es', ⟨h1, rfl⟩, he⟩
          cases he
          exact ⟨h1, rfl⟩
        · rintro ⟨h1, rfl⟩
          exact ⟨_, ⟨h1, rfl⟩, rfl⟩

theorem emits_nodup_iff :
    (List.finRange events.length).Pairwise
      (fun i j => ∀ s, (eventAt events i).sent = some s → (eventAt events j).sent ≠ some s) ↔
    (events.filterMap CausalEvent.sent).Nodup := by
  conv_rhs => rw [← map_eventAt events]
  rw [List.Nodup, List.pairwise_filterMap, List.pairwise_map]
  refine List.Pairwise.iff fun i j => ?_
  constructor
  · rintro h s hs t ht rfl; exact h s hs ht
  · intro h s hs ht; exact h s hs s ht rfl

/-- The emit found under a msg_id. -/
def findEmit (events : List CausalEvent) (s : String) : Option (Fin events.length) :=
  (List.finRange events.length).find? fun i => (eventAt events i).sent = some s

theorem findEmit_isSome {s : String} :
    (findEmit events s).isSome ↔ ∃ e ∈ events, e.sent = some s := by
  simp only [findEmit, List.find?_isSome, List.mem_finRange, true_and, decide_eq_true_eq]
  constructor
  · rintro ⟨i, hi⟩; exact ⟨_, eventAt_mem events i, hi⟩
  · rintro ⟨e, he, hs⟩
    obtain ⟨i, rfl⟩ := exists_eventAt he
    exact ⟨i, hs⟩

/-- The consecutive events of each sorted group. -/
def programPart (events : List CausalEvent) : List (Fin events.length × Fin events.length) :=
  (byActor events).toList.flatMap
    fun g => (sortBySeq events g.2).zip (sortBySeq events g.2).tail

/-- Each recv with the emit it looks up. -/
def messagePart (events : List CausalEvent) : List (Fin events.length × Fin events.length) :=
  (List.finRange events.length).filterMap
    fun i => ((eventAt events i).wanted.bind (findEmit events)).map fun e => (e, i)

/-- **`build` accepts exactly the well-formed logs**, and the edges are the consecutive events of
each sorted group followed by the message pairs. -/
theorem buildEdges_ok {es : List (Fin events.length × Fin events.length)} :
    buildEdges events = .ok es ↔
      WellFormed events ∧ es = programPart events ++ messagePart events := by
  have hwanted : (∀ i ∈ List.finRange events.length, ∀ s, (eventAt events i).wanted = some s →
      (findEmit events s).isSome) ↔
      ∀ r ∈ events, ∀ s, r.wanted = some s → ∃ e ∈ events, e.sent = some s := by
    simp only [findEmit_isSome, List.mem_finRange, true_implies]
    constructor
    · rintro h r hr s hs
      obtain ⟨i, rfl⟩ := exists_eventAt hr
      exact h i s hs
    · exact fun h i s hs => h _ (eventAt_mem events i) s hs
  have hm : (fun s => (none : Option (Fin events.length)).or
      ((List.finRange events.length).find? fun i => (eventAt events i).sent = some s)) =
      findEmit events := by
    funext s; rfl
  simp only [buildEdges, Except.bind_eq_ok, programEdges_ok, chains_iff_coords, emitOf_ok,
    emits_nodup_iff, messageEdges_ok]
  constructor
  · rintro ⟨p, ⟨hc, rfl⟩, m, ⟨-, he, rfl⟩, msg, ⟨hr, rfl⟩, h⟩
    cases h
    exact ⟨⟨hc, he, hwanted.mp hr⟩, rfl⟩
  · rintro ⟨⟨hc, he, hr⟩, rfl⟩
    exact ⟨_, ⟨hc, rfl⟩, _, ⟨fun _ _ _ _ => trivial, he, hm.symm⟩, _, ⟨hwanted.mpr hr, rfl⟩, rfl⟩

/-! ## What the edges reconstruct -/

theorem sent_inj (h : (events.filterMap CausalEvent.sent).Nodup) {i j : Fin events.length}
    {s : String} (hi : (eventAt events i).sent = some s) (hj : (eventAt events j).sent = some s) :
    i = j := by
  by_contra hne
  have hsymm : Std.Symm fun i j : Fin events.length =>
      ∀ s, (eventAt events i).sent = some s → (eventAt events j).sent ≠ some s :=
    ⟨fun _ _ h s hj hi => h s hi hj⟩
  exact (emits_nodup_iff.mpr h).forall (List.mem_finRange i) (List.mem_finRange j) hne s hi hj

theorem findEmit_eq (h : (events.filterMap CausalEvent.sent).Nodup) {i : Fin events.length}
    {s : String} : findEmit events s = some i ↔ (eventAt events i).sent = some s := by
  constructor
  · intro hf
    simpa using List.find?_some hf
  · intro hs
    obtain ⟨j, hj⟩ := Option.isSome_iff_exists.mp
      (findEmit_isSome.mpr ⟨_, eventAt_mem events i, hs⟩)
    have hjs : (eventAt events j).sent = some s := by simpa using List.find?_some hj
    rw [hj, sent_inj h hs hjs]

section Edges

/-- One event follows the other on the actor's line, with none between. -/
def Next (events : List CausalEvent) (a b : CausalEvent) : Prop :=
  ProgramOrder a b ∧ ∀ c ∈ events, ¬ (ProgramOrder a c ∧ ProgramOrder c b)

/-- The group of an event. -/
theorem group_mem (i : Fin events.length) : ((eventAt events i).actor,
    (List.finRange events.length).filter fun k => (eventAt events k).actor = (eventAt events i).actor)
      ∈ (byActor events).toList :=
  mem_byActor.mpr ⟨rfl, i, rfl⟩

theorem mem_programPart (hwf : WellFormed events) {i j : Fin events.length} :
    (i, j) ∈ programPart events ↔ Next events (eventAt events i) (eventAt events j) := by
  have hgroup : ∀ g ∈ (byActor events).toList, ((i, j) ∈ (sortBySeq events g.2).zip
      (sortBySeq events g.2).tail ↔ (eventAt events i).actor = g.1 ∧
        Next events (eventAt events i) (eventAt events j)) := by
    intro g hg
    rw [KeyOrder.mem_zip_tail (sortBySeq_lt (chains_iff_coords.mpr hwf.coords g hg))]
    simp only [mem_sortBySeq hg]
    constructor
    · rintro ⟨hi, hj, hlt, hno⟩
      refine ⟨hi, ⟨hi.trans hj.symm, hlt⟩, fun c hc => ?_⟩
      obtain ⟨k, rfl⟩ := exists_eventAt hc
      rintro ⟨hik, hkj⟩
      exact hno k (hik.1.symm.trans hi) ⟨hik.2, hkj.2⟩
    · rintro ⟨hi, ⟨hact, hlt⟩, hno⟩
      refine ⟨hi, hact.symm.trans hi, hlt, fun k hk => ?_⟩
      rintro ⟨hik, hkj⟩
      exact hno _ (eventAt_mem events k)
        ⟨⟨hi.trans hk.symm, hik⟩, ⟨hk.trans (hi.symm.trans hact), hkj⟩⟩
  rw [programPart, List.mem_flatMap]
  constructor
  · rintro ⟨g, hg, hij⟩
    exact ((hgroup g hg).mp hij).2
  · intro h
    exact ⟨_, group_mem i, (hgroup _ (group_mem i)).mpr ⟨rfl, h⟩⟩

theorem mem_messagePart (hwf : WellFormed events) {i j : Fin events.length} :
    (i, j) ∈ messagePart events ↔ Paired (eventAt events i) (eventAt events j) := by
  simp only [messagePart, List.mem_filterMap, List.mem_finRange, true_and, Option.map_eq_some_iff,
    Option.bind_eq_some_iff]
  constructor
  · rintro ⟨k, e, ⟨s, hs, hf⟩, hp⟩
    obtain ⟨rfl, rfl⟩ := Prod.mk.inj hp
    exact ⟨s, (findEmit_eq hwf.emits).mp hf, hs⟩
  · rintro ⟨s, hi, hj⟩
    exact ⟨j, i, ⟨s, hj, (findEmit_eq hwf.emits).mpr hi⟩, rfl⟩

variable {es : List (Fin events.length × Fin events.length)} (hes : buildEdges events = .ok es)
include hes

/-- The edges are the neighbours on an actor's line and the message pairs. -/
theorem edge_iff {i j : Fin events.length} : EdgeGraph.Edge es i j ↔
    Next events (eventAt events i) (eventAt events j) ∨
      Paired (eventAt events i) (eventAt events j) := by
  obtain ⟨hwf, rfl⟩ := buildEdges_ok.mp hes
  rw [EdgeGraph.Edge, List.mem_append, mem_programPart hwf, mem_messagePart hwf]

/-- Every edge is a program-order step or a message pair. -/
theorem edge_cases {i j : Fin events.length} (h : EdgeGraph.Edge es i j) :
    ProgramOrder (eventAt events i) (eventAt events j) ∨
      Paired (eventAt events i) (eventAt events j) :=
  ((edge_iff hes).mp h).imp_left And.left

theorem path_of_programOrder {i j : Fin events.length}
    (h : ProgramOrder (eventAt events i) (eventAt events j)) : EdgeGraph.Path es i j := by
  obtain ⟨hwf, rfl⟩ := buildEdges_ok.mp hes
  have hg := group_mem i
  have hlt := sortBySeq_lt (chains_iff_coords.mpr hwf.coords _ hg)
  have hi := (mem_sortBySeq hg).mpr rfl
  have hj := (mem_sortBySeq hg).mpr h.1.symm
  -- the sorted group lists `i` before `j`
  have hsub : [i, j].Sublist (sortBySeq events ((List.finRange events.length).filter
      fun k => (eventAt events k).actor = (eventAt events i).actor)) := by
    obtain ⟨pre, post, heq⟩ := List.append_of_mem hi
    rw [heq] at hj hlt ⊢
    rcases List.mem_append.mp hj with hj | hj
    · have := (List.pairwise_append.mp hlt).2.2 j hj i (List.mem_cons_self ..)
      exact absurd h.2 (by omega)
    · rcases List.mem_cons.mp hj with rfl | hj
      · exact absurd h.2 (by omega)
      · exact ((List.singleton_sublist.mpr hj).cons_cons i).trans (List.sublist_append_right ..)
  refine Relation.TransGen.mono (fun _ _ he => ?_) _ _ (EdgeGraph.path_zip_tail hsub)
  exact List.mem_append_left _ (List.mem_flatMap.mpr ⟨_, hg, he⟩)

theorem edge_of_paired {i j : Fin events.length}
    (h : Paired (eventAt events i) (eventAt events j)) : EdgeGraph.Edge es i j :=
  (edge_iff hes).mpr (.inr h)

/-- **The edges generate exactly program order and message order.** -/
theorem path_iff {i j : Fin events.length} : EdgeGraph.Path es i j ↔
    Relation.TransGen (fun i j => ProgramOrder (eventAt events i) (eventAt events j) ∨
      Paired (eventAt events i) (eventAt events j)) i j := by
  constructor
  · exact Relation.TransGen.mono (fun _ _ he => edge_cases hes he) _ _
  · intro h
    induction h with
    | single h => exact h.elim (path_of_programOrder hes) fun h => .single (edge_of_paired hes h)
    | tail _ h ih =>
      exact ih.trans (h.elim (path_of_programOrder hes) fun h => .single (edge_of_paired hes h))

end Edges

/-- **`build` accepts exactly the well-formed logs.** -/
theorem build_ok_iff : (∃ p, build events = .ok p) ↔ WellFormed events := by
  constructor
  · rintro ⟨p, hp⟩
    obtain ⟨es, hes, -⟩ := Except.bind_eq_ok.mp hp
    exact (buildEdges_ok.mp hes).1
  · intro h
    exact ⟨_, Except.bind_eq_ok.mpr ⟨_, buildEdges_ok.mpr ⟨h, rfl⟩, rfl⟩⟩

theorem validateEdges_ok {p : Poset} :
    ∀ {es : List (Fin p.events.length × Fin p.events.length)},
    p.validateEdges es = .ok () ↔ ∀ i j, EdgeGraph.Edge es i j →
      hbStrict (eventAt p.events i).vclock (eventAt p.events j).vclock = true
  | [] => by simp [validateEdges, EdgeGraph.Edge]
  | (a, b) :: es => by
    unfold validateEdges
    split
    · rename_i h
      rw [validateEdges_ok]
      refine ⟨fun hes i j hij => ?_, fun hes i j hij => hes i j (List.mem_cons_of_mem _ hij)⟩
      rcases List.mem_cons.mp hij with hij | hij
      · obtain ⟨rfl, rfl⟩ := Prod.mk.inj hij; exact h
      · exact hes i j hij
    · rename_i h
      exact iff_of_false (fun h => by cases h) fun hes => h (hes a b (List.mem_cons_self ..))

/-! ## Errors of `build` and `validate`

Every stage reports errors of one kind only.  A cycle is reported by linearization alone. -/

/-- Every error of `x` is of the given kind. -/
def Fails {β : Type} (k : ErrorKind) (x : Except ReplayError β) : Prop :=
  ∀ e, x = .error e → e.kind = k

theorem Fails.ok {β : Type} {k : ErrorKind} (b : β) : Fails k (.ok b) := fun _ h => by cases h

theorem Fails.error {β : Type} (e : ReplayError) : Fails e.kind (.error e : Except ReplayError β) :=
  fun _ h => by cases h; rfl

theorem Fails.bind {β γ : Type} {k : ErrorKind} {x : Except ReplayError β}
    {f : β → Except ReplayError γ} (hx : Fails k x) (hf : ∀ b, Fails k (f b)) :
    Fails k (x >>= f) := by
  intro e h
  cases x with
  | error e' => cases h; exact hx e rfl
  | ok b => exact hf b e h

theorem windowEdges_fails {actor : String} : ∀ s : List (Fin events.length),
    Fails .duplicateSeq (windowEdges events actor s)
  | [] => .ok _
  | [_] => .ok _
  | i :: j :: s => by
    unfold windowEdges
    split
    · exact .error _
    · exact (windowEdges_fails (j :: s)).bind fun _ => .ok _

theorem programEdges_fails : ∀ groups : List (String × List (Fin events.length)),
    Fails .duplicateSeq (programEdges events groups)
  | [] => .ok _
  | (_, idxs) :: rest =>
    (windowEdges_fails (sortBySeq events idxs)).bind fun _ =>
      (programEdges_fails rest).bind fun _ => .ok _

theorem emitOf_fails : ∀ (is : List (Fin events.length))
    (m : String → Option (Fin events.length)), Fails .duplicateEmit (emitOf events is m)
  | [], _ => .ok _
  | i :: is, m => by
    rw [emitOf_cons]
    split
    · split
      · exact .error _
      · exact emitOf_fails is _
    · exact emitOf_fails is m

theorem messageEdges_fails (m : String → Option (Fin events.length)) :
    ∀ is : List (Fin events.length), Fails .missingEmit (messageEdges events m is)
  | [] => .ok _
  | i :: is => by
    unfold messageEdges
    split
    · dsimp only
      split
      · exact .error _
      · exact (messageEdges_fails m is).bind fun _ => .ok _
    · exact messageEdges_fails m is

theorem validateEdges_fails (p : Poset) :
    ∀ es : List (Fin p.events.length × Fin p.events.length),
      Fails .inconsistent (p.validateEdges es)
  | [] => .ok _
  | (a, b) :: es => by
    unfold validateEdges
    split
    · exact validateEdges_fails p es
    · exact .error _

def NeverCycle {β : Type} (x : Except ReplayError β) : Prop := ∀ k, x ≠ .error (.cycle k)

theorem NeverCycle.bind {β γ : Type} {x : Except ReplayError β} {f : β → Except ReplayError γ}
    (hx : NeverCycle x) (hf : ∀ b, NeverCycle (f b)) : NeverCycle (x >>= f) := by
  intro k h
  cases x with
  | error e => cases h; exact hx k rfl
  | ok b => exact hf b k h

theorem Fails.neverCycle {β : Type} {k : ErrorKind} {x : Except ReplayError β} (h : Fails k x)
    (hk : k ≠ .cycle) : NeverCycle x := by
  intro n he
  exact hk (h _ he).symm

theorem build_neverCycle : NeverCycle (build events) := by
  refine NeverCycle.bind ?_ fun _ => (Fails.ok (k := .inconsistent) _).neverCycle (by decide)
  exact ((programEdges_fails _).neverCycle (by decide)).bind fun _ =>
    ((emitOf_fails _ _).neverCycle (by decide)).bind fun m =>
      ((messageEdges_fails m _).neverCycle (by decide)).bind fun _ =>
        (Fails.ok (k := .inconsistent) _).neverCycle (by decide)

theorem validateEdges_neverCycle (p : Poset)
    (es : List (Fin p.events.length × Fin p.events.length)) : NeverCycle (p.validateEdges es) :=
  (validateEdges_fails p es).neverCycle (by decide)

end Poset

end Lichtung
