import Lichtung.Lib.Decimal
import Lichtung.Replay.Restamp

/-!
# The keys of `pending`

The poset pairs an emit with a recv by their msg_id strings, the driver by the numbers these parse
to, and a send past the recorded ones draws a number of its own, counting down from the largest
`u64`.  The three agree, and no envelope replaces a waiting one, exactly when no number is recorded
in two spellings, no drawn number is recorded or drawn by another actor at the same position, and
no rebuilt `world` repeats a seeded send.

Principal results: `parseMid_eq_iff` (which strings parse to one number), `Machine.Reached.keyed`
(the keys in use at every point of a replay) and `pending_apart`.
-/

namespace Lichtung

variable {τ α σ : Type}

/-! ## Spellings of one number -/

/-- What follows the `m` of a msg_id, without the plus sign and the leading zeros. -/
def bareMid (s : String) : List Char :=
  let ds := s.toList.tail
  Decimal.significant (if ds.head? = some '+' then ds.tail else ds)

theorem parseMid_some {s : String} {n : Nat} (h : parseMid s = some n) : ∃ ds,
    (∀ c ∈ ds, c.isDigit = true) ∧ n = Decimal.value ds ∧ bareMid s = Decimal.significant ds := by
  unfold parseMid at h
  split at h
  · rename_i ds hds
    have hbare : bareMid s = Decimal.significant (if ds.head? = some '+' then ds.tail else ds) := by
      rw [bareMid, hds, List.tail_cons]
    unfold parseU64 at h
    revert h hbare
    generalize (if ds.head? = some '+' then ds.tail else ds) = ds'
    intro h hbare
    dsimp only at h
    split at h
    · rename_i hok
      exact ⟨ds', List.all_eq_true.mp hok.2.1, (Option.some.inj h).symm, hbare⟩
    · cases h
  · cases h

/-- **Two msg_ids parse to one number exactly when they differ by a plus sign and leading zeros at
most.** -/
theorem parseMid_eq_iff {s t : String} {m n : Nat} (hs : parseMid s = some m)
    (ht : parseMid t = some n) : m = n ↔ bareMid s = bareMid t := by
  obtain ⟨ds, hds, rfl, hbs⟩ := parseMid_some hs
  obtain ⟨es, hes, rfl, hbt⟩ := parseMid_some ht
  rw [hbs, hbt, Decimal.value_eq_iff hds hes]

/-- No number is recorded in two spellings. -/
def SpelledOnce (log : List CausalEvent) : Prop :=
  ∀ e ∈ log, ∀ f ∈ log, ∀ s t, e.msgId = some s → f.msgId = some t → parseMid s ≠ none →
    parseMid t ≠ none → bareMid s = bareMid t → s = t

namespace CausalEvent

theorem parsedMid_some {e : CausalEvent} {n : Nat} :
    e.parsedMid = some n ↔ ∃ s, e.msgId = some s ∧ parseMid s = some n :=
  Option.bind_eq_some_iff

end CausalEvent

theorem SpelledOnce.msgId_eq {log : List CausalEvent} (h : SpelledOnce log) {e f : CausalEvent}
    (he : e ∈ log) (hf : f ∈ log) {n : Nat} (hen : e.parsedMid = some n)
    (hfn : f.parsedMid = some n) : e.msgId = f.msgId := by
  obtain ⟨s, hs, hsn⟩ := CausalEvent.parsedMid_some.mp hen
  obtain ⟨t, ht, htn⟩ := CausalEvent.parsedMid_some.mp hfn
  have hst := h e he f hf s t hs ht (by simp [hsn]) (by simp [htn])
    ((parseMid_eq_iff hsn htn).mp rfl)
  rw [hs, ht, hst]

/-- The recorder has one spelling for every number. -/
theorem SpelledOnce.of_plain {log : List CausalEvent} (h : ∀ e ∈ log, e.PlainMid) :
    SpelledOnce log := by
  intro e he f hf s t hs ht hps hpt hbare
  obtain ⟨m, hm⟩ := h e he s hs
  obtain ⟨n, hn⟩ := h f hf t ht
  cases hm
  cases hn
  obtain ⟨m', hm'⟩ := Option.ne_none_iff_exists'.mp hps
  obtain ⟨n', hn'⟩ := Option.ne_none_iff_exists'.mp hpt
  have hmn : m' = n' := (parseMid_eq_iff hm' hn').mpr hbare
  rw [parseMid_repr] at hm' hn'
  split at hm'
  · split at hn'
    · cases hm'
      cases hn'
      rw [hmn]
    · cases hn'
  · cases hm'

/-! ## The keys in use -/

instance (idx : RecordedIndex) (a : ActorId) (j : Nat) : Decidable (OverSend idx a j) :=
  inferInstanceAs (Decidable (_ = none))

namespace Machine

section Keys

variable (origins : List (ActorId × Boxed τ α)) (m : Machine τ α σ)

/-- The number of sends of the running actor. -/
def sendIndex : Nat := m.driver.state.sendCount m.current

/-- The envelope that the next step puts into `pending`. -/
def insertion [Counter] : Option (Envelope τ α) :=
  match m.emits, m.actions with
  | we :: _, _ =>
    we.parsedMid.bind fun n => origins[m.position]?.map (ReplayState.originEnvelope we n)
  | [], .send addr msg :: _ =>
    some (((m.driver.clocks m.current).bump m.current).envelope m.current
      (m.driver.state.recorded.sendMid m.current m.sendIndex) addr msg)
  | _, _ => none

/-- The number that the next step draws for a send past the recorded ones. -/
def sentinel : Option Nat :=
  match m.emits, m.actions with
  | [], .send _ _ :: _ =>
    if OverSend m.driver.state.recorded m.current m.sendIndex then
      some (2 ^ 64 - 1 - (m.sendIndex + 1))
    else none
  | _, _ => none

end Keys

/-- The keys that were ever put into `pending`: those of the seeded origins and of the sends. -/
inductive Used (sys : ReplaySystem τ α σ) (log : List CausalEvent) (m : Machine τ α σ) (n : Nat) :
    Prop
  | seeded {k : Nat} {we : CausalEvent} (hk : k < m.position)
      (hwe : ((RecordedIndex.build log).emitsByActor "world")[k]? = some we)
      (ho : k < sys.origins.length) (hn : we.parsedMid = some n)
  | sent {a : ActorId} {j : Nat} (hj : j < m.driver.state.sendCount a)
      (hn : n = (RecordedIndex.build log).sendMid a j)

/-- The waiting envelopes and the keys in use, at any point of a replay. -/
structure Keyed (sys : ReplaySystem τ α σ) (log : List CausalEvent) (m : Machine τ α σ) : Prop where
  early : m.emits ≠ [] → ∀ a, m.driver.state.sendCount a = 0
  waiting : ∀ n env, m.driver.state.pending n = some env →
    env.msgId = n ∧ env ∈ m.driver.state.journal.stashed
  used : ∀ n, (∃ env ∈ m.driver.state.journal.stashed, env.msgId = n) ↔ Used sys log m n

variable {m m' : Machine τ α σ} {sys : ReplaySystem τ α σ} {log timeline : List CausalEvent}

/-- What one step does to `pending` and to the send counters. -/
inductive Stashes [Counter] (origins : List (ActorId × Boxed τ α)) (m m' : Machine τ α σ) : Prop
  | keep (hins : m.insertion origins = none)
      (hstashed : m'.driver.state.journal.stashed = m.driver.state.journal.stashed)
      (hpending : ∀ n env, m'.driver.state.pending n = some env →
        m.driver.state.pending n = some env)
      (hcount : m'.driver.state.sendCount = m.driver.state.sendCount)
  | seed {we : CausalEvent} {env : Envelope τ α} (he : m.emits.head? = some we)
      (hins : m.insertion origins = some env) (hmid : we.parsedMid = some env.msgId)
      (ho : m.position < origins.length)
      (hstashed : m'.driver.state.journal.stashed.Perm (env :: m.driver.state.journal.stashed))
      (hpending : m'.driver.state.pending =
        Function.update m.driver.state.pending env.msgId (some env))
      (hcount : m'.driver.state.sendCount = m.driver.state.sendCount)
  | send {env : Envelope τ α} (he : m.emits = []) (hins : m.insertion origins = some env)
      (hmid : env.msgId = m.driver.state.recorded.sendMid m.current m.sendIndex)
      (hstashed : m'.driver.state.journal.stashed.Perm (env :: m.driver.state.journal.stashed))
      (hpending : m'.driver.state.pending =
        Function.update m.driver.state.pending env.msgId (some env))
      (hcount : m'.driver.state.sendCount =
        Function.update m.driver.state.sendCount m.current (m.sendIndex + 1))

/-- The position in the seeding loop moves with the world emits. -/
theorem next_position [Counter] [DecidableEq τ] {origins : List (ActorId × Boxed τ α)}
    (h : m.next origins = some (.ok m')) :
    (∃ we, m.emits.head? = some we ∧ m'.emits = m.emits.tail ∧ m'.position = m.position + 1) ∨
      m.emits = [] ∧ m'.emits = [] ∧ m'.position = m.position := by
  cases next_step h with
  | @seed we wes he => exact .inl ⟨we, by rw [he]; rfl, by rw [he]; rfl, rfl⟩
  | act he ha => exact .inr ⟨he, he, rfl⟩
  | start he ha hn hcall => exact .inr ⟨he, he, rfl⟩
  | serve he ha hn ht hrecv => exact .inr ⟨he, he, rfl⟩

theorem recv_stash [Counter] [DecidableEq τ] {ev : CausalEvent} {d : Driver τ α σ}
    {p : Driver τ α σ × List (Action (Addr τ) α)} (h : d.recv ev = .ok p) :
    p.1.state.journal.stashed = d.state.journal.stashed ∧
      (∀ n env, p.1.state.pending n = some env → d.state.pending n = some env) ∧
      p.1.state.sendCount = d.state.sendCount := by
  unfold Driver.recv at h
  split at h
  · cases h
    exact ⟨rfl, fun _ _ hn => hn, rfl⟩
  · split at h
    · cases h
      exact ⟨rfl, fun _ _ hn => hn, rfl⟩
    · rename_i k hk
      split at h
      · cases h
        exact ⟨rfl, fun _ _ hn => hn, rfl⟩
      · rename_i taken htaken
        have hremoved : ∀ n env, Function.update d.state.pending k none n = some env →
            d.state.pending n = some env := by
          intro n env hn
          rw [Function.update_apply] at hn
          split at hn
          · cases hn
          · exact hn
        dsimp only at h
        split at h
        · cases h
          exact ⟨rfl, hremoved, rfl⟩
        · obtain ⟨-, hstate, -⟩ := call_ok h
          rw [hstate]
          exact ⟨rfl, hremoved, rfl⟩

/-- **What a step puts into `pending` is its `insertion`.** -/
theorem next_stashes [Counter] [DecidableEq τ] {origins : List (ActorId × Boxed τ α)}
    (h : m.next origins = some (.ok m')) : Stashes origins m m' := by
  cases next_step h with
  | @seed we wes he =>
    cases hmid : we.parsedMid with
    | none =>
      refine .keep (by simp [insertion, he, hmid]) ?_ (fun n env hn => ?_) ?_
      all_goals simp only [ReplayState.seedOrigin, hmid] at *
      · rfl
      · exact hn
      · rfl
    | some n =>
      cases ho : origins[m.position]? with
      | none =>
        refine .keep (by simp [insertion, he, hmid, ho]) ?_ (fun n env hn => ?_) ?_
        all_goals simp only [ReplayState.seedOrigin, hmid, ho] at *
        · rfl
        · exact hn
        · rfl
      | some o =>
        have hins : m.insertion origins = some (ReplayState.originEnvelope we n o) := by
          simp [insertion, he, hmid, ho]
        refine .seed (by rw [he]; rfl) hins hmid (List.getElem?_eq_some_iff.mp ho).1 ?_ ?_ ?_
        all_goals simp only [ReplayState.seedOrigin, hmid]
        · simp only [ReplayState.seed, Journal.stashed, List.map_append, List.map_cons,
            List.map_nil, List.append_assoc, List.singleton_append]
          exact List.perm_middle
        · rfl
        · rfl
  | @act a as he ha =>
    cases a with
    | compute =>
      exact .keep (by simp [insertion, he, ha]) rfl (fun _ _ hn => hn) rfl
    | send addr msg =>
      obtain ⟨s', hsend, heff⟩ := send_effect (c := m.driver.clocks m.current) addr msg
        (rfl : _ = m.driver.state.recorded.sendMid m.current (m.driver.state.sendCount m.current))
      have hperform : (m.driver.perform m.current (.send addr msg)).state = s' := by
        rw [Driver.perform, Context.perform, hsend]
      refine .send he (by simp only [insertion, he, ha]; rfl) rfl ?_ ?_ ?_
      all_goals simp only [hperform]
      · rw [heff.journal]
        simp only [Journal.stashed, ← List.append_assoc]
        exact List.perm_append_singleton ..
      · rw [heff.pending]
        rfl
      · rw [heff.sendCount]
        rfl
  | start he ha hn hcall =>
    obtain ⟨-, hstate, -⟩ := call_ok hcall
    refine .keep (by simp [insertion, he, ha]) ?_ (fun n env hn => ?_) ?_
    all_goals simp only [hstate] at *
    exact hn
  | serve he ha hn ht hrecv =>
    obtain ⟨hstashed, hpending, hcount⟩ := recv_stash hrecv
    exact .keep (by simp [insertion, he, ha]) hstashed hpending hcount

variable [DecidableEq τ]

/-- The world emit to be seeded next. -/
theorem Reached.next_emit [Counter] (hm : Reached sys log timeline m) {we : CausalEvent}
    (he : m.emits.head? = some we) :
    ((RecordedIndex.build log).emitsByActor "world")[m.position]? = some we := by
  rwa [hm.emits, List.head?_drop] at he

/-- A step uses one key more, or none. -/
theorem used_step (hm : Reached sys log timeline m) (hnext : m.next sys.origins = some (.ok m'))
    (n : Nat) : Used sys log m' n ↔
      (∃ env, m.insertion sys.origins = some env ∧ n = env.msgId) ∨ Used sys log m n := by
  have hpos := next_position hnext
  cases next_stashes hnext with
  | keep hins hstashed hpending hcount =>
    rw [hins]
    constructor
    · rintro (⟨hk, hwe, ho, hn⟩ | ⟨hj, hn⟩)
      · refine .inr (.seeded ?_ hwe ho hn)
        rcases hpos with ⟨we', he, -, hp⟩ | ⟨-, -, hp⟩
        · -- the world emit passed over has no number or no origin
          refine lt_of_le_of_ne (by omega) fun hkm => ?_
          rw [hkm, hm.next_emit he] at hwe
          cases hwe
          obtain ⟨wes, hcons⟩ := List.head?_eq_some_iff.mp he
          rw [hkm] at ho
          simp [insertion, hcons, hn, List.getElem?_eq_getElem ho] at hins
        · omega
      · rw [hcount] at hj
        exact .inr (.sent hj hn)
    · rintro (⟨env, henv, -⟩ | ⟨hk, hwe, ho, hn⟩ | ⟨hj, hn⟩)
      · cases henv
      · exact .seeded (by omega) hwe ho hn
      · exact .sent (by rwa [hcount]) hn
  | @seed we env he hins hmid ho hstashed hpending hcount =>
    obtain ⟨we', he', -, hp⟩ | ⟨hnil, -, -⟩ := hpos
    swap
    · rw [hnil] at he
      cases he
    rw [hins]
    constructor
    · rintro (@⟨k, w, hk, hwe, ho', hn⟩ | ⟨hj, hn⟩)
      · by_cases hkm : k = m.position
        · rw [hkm, hm.next_emit he] at hwe
          cases hwe
          rw [hmid] at hn
          exact .inl ⟨env, rfl, (Option.some.inj hn).symm⟩
        · exact .inr (.seeded (by omega) hwe ho' hn)
      · rw [hcount] at hj
        exact .inr (.sent hj hn)
    · rintro (⟨env', henv, rfl⟩ | ⟨hk, hwe, ho', hn⟩ | ⟨hj, hn⟩)
      · cases henv
        exact .seeded (by omega) (hm.next_emit he) ho hmid
      · exact .seeded (by omega) hwe ho' hn
      · exact .sent (by rwa [hcount]) hn
  | @send env he hins hmid hstashed hpending hcount =>
    obtain ⟨we', he', -, -⟩ | ⟨-, -, hp⟩ := hpos
    · rw [he] at he'
      cases he'
    rw [hm.recorded] at hmid
    rw [hins]
    constructor
    · rintro (⟨hk, hwe, ho, hn⟩ | @⟨a, j, hj, hn⟩)
      · exact .inr (.seeded (by omega) hwe ho hn)
      · rw [hcount, Function.update_apply] at hj
        split at hj
        · rename_i ha
          by_cases hjm : j = m.sendIndex
          · refine .inl ⟨env, rfl, ?_⟩
            rw [hn, hmid, ha, hjm]
          · rw [ha] at hn
            have hlt : j < m.driver.state.sendCount m.current := by
              unfold sendIndex at hj hjm
              omega
            exact .inr (.sent hlt hn)
        · exact .inr (.sent hj hn)
    · rintro (⟨env', henv, rfl⟩ | ⟨hk, hwe, ho, hn⟩ | @⟨a, j, hj, hn⟩)
      · cases henv
        refine .sent (a := m.current) (j := m.sendIndex) ?_ hmid
        rw [hcount, Function.update_self]
        exact Nat.lt_succ_self _
      · exact .seeded (by omega) hwe ho hn
      · refine .sent (a := a) (j := j) ?_ hn
        rw [hcount, Function.update_apply]
        split
        · rename_i ha
          rw [ha] at hj
          exact hj.trans (Nat.lt_succ_self _)
        · exact hj

/-- **At every point of a replay: nothing is sent before the origins are seeded, what waits was put
there under its own key, and the keys put there are the used ones.** -/
theorem Reached.keyed (hm : Reached sys log timeline m) : m.Keyed sys log := by
  induction hm with
  | entry =>
    refine ⟨fun _ _ => rfl, fun n env h => (by cases h), fun n => iff_of_false ?_ ?_⟩
    · rintro ⟨env, henv, -⟩
      cases henv
    · rintro (⟨hk, -, -, -⟩ | ⟨hj, -⟩)
      · cases hk
      · cases hj
  | @step m m' hm hnext ih =>
    have hpos := next_position hnext
    refine ⟨fun hne a => ?_, ?_, fun n => ?_⟩
    · obtain ⟨we, he, -, -⟩ | ⟨-, hnil, -⟩ := hpos
      · have hold : m.emits ≠ [] := fun hnil => by rw [hnil] at he; cases he
        cases next_stashes hnext with
        | keep hins hstashed hpending hcount => rw [hcount]; exact ih.early hold a
        | seed he' hins hmid ho hstashed hpending hcount => rw [hcount]; exact ih.early hold a
        | send he' => exact absurd he' hold
      · exact absurd hnil hne
    · cases next_stashes hnext with
      | keep hins hstashed hpending hcount =>
        intro n env hn
        rw [hstashed]
        exact ih.waiting n env (hpending n env hn)
      | seed he hins hmid ho hstashed hpending hcount =>
        rw [hpending]
        exact waiting_put ih.waiting (hstashed.mem_iff.mpr (List.mem_cons_self ..)) fun e he =>
          hstashed.mem_iff.mpr (List.mem_cons_of_mem _ he)
      | send he hins hmid hstashed hpending hcount =>
        rw [hpending]
        exact waiting_put ih.waiting (hstashed.mem_iff.mpr (List.mem_cons_self ..)) fun e he =>
          hstashed.mem_iff.mpr (List.mem_cons_of_mem _ he)
    · rw [used_step hm hnext, ← ih.used n]
      cases next_stashes hnext with
      | keep hins hstashed hpending hcount => simp [hins, hstashed]
      | seed he hins hmid ho hstashed hpending hcount =>
        simp [hins, hstashed.mem_iff, eq_comm]
      | send he hins hmid hstashed hpending hcount =>
        simp [hins, hstashed.mem_iff, eq_comm]

end Machine

/-! ## When every envelope has a key of its own -/

section Apart

variable {sys : ReplaySystem τ α σ} {log timeline : List CausalEvent}

/-- What a send has to find for its key to be its own: past the recorded sends, no other actor that
has drawn the number of this position and no recorded msg_id of that number; otherwise, no seeded
origin that stands for this send. -/
def Machine.SendApart (sys : ReplaySystem τ α σ) (log : List CausalEvent) (m : Machine τ α σ) :
    Prop :=
  ∀ addr msg as, m.emits = [] → m.actions = .send addr msg :: as →
    if OverSend (.build log) m.current m.sendIndex then
      (∀ b, b ≠ m.current → OverSend (.build log) b m.sendIndex →
        m.driver.state.sendCount b ≤ m.sendIndex) ∧
      ∀ e ∈ log, e.parsedMid ≠ some (2 ^ 64 - 1 - (m.sendIndex + 1))
    else m.current = "world" → sys.origins.length ≤ m.sendIndex

theorem sendMid_of_over {idx : RecordedIndex} {a : ActorId} {j : Nat} (h : OverSend idx a j) :
    idx.sendMid a j = 2 ^ 64 - 1 - (j + 1) := by
  rw [RecordedIndex.sendMid, h, Option.getD_none]

theorem sendMid_of_not_over {idx : RecordedIndex} {a : ActorId} {j : Nat}
    (h : ¬ OverSend idx a j) :
    ∃ e, (idx.emitsByActor a)[j]? = some e ∧ e.parsedMid = some (idx.sendMid a j) := by
  obtain ⟨n, hn⟩ := Option.ne_none_iff_exists'.mp h
  obtain ⟨e, he, hen⟩ := Option.bind_eq_some_iff.mp hn
  refine ⟨e, he, ?_⟩
  rw [hen, RecordedIndex.sendMid, hn, Option.getD_some]

theorem mem_of_emits {a : ActorId} {j : Nat} {e : CausalEvent}
    (h : ((RecordedIndex.build log).emitsByActor a)[j]? = some e) :
    e ∈ log ∧ e.op = .emit ∧ e.actor = a :=
  RecordedIndex.mem_build_emits.mp (List.mem_of_getElem? h)

/-- In a log that spells every number once, a number belongs to one emit. -/
theorem emit_unique (hwf : WellFormed log) (hspelled : SpelledOnce log) {a b : ActorId}
    {i j n : Nat} {e f : CausalEvent}
    (he : ((RecordedIndex.build log).emitsByActor a)[i]? = some e)
    (hf : ((RecordedIndex.build log).emitsByActor b)[j]? = some f)
    (hen : e.parsedMid = some n) (hfn : f.parsedMid = some n) : a = b ∧ i = j := by
  obtain ⟨hel, heop, hea⟩ := mem_of_emits he
  obtain ⟨hfl, hfop, hfb⟩ := mem_of_emits hf
  obtain ⟨s, hs, -⟩ := CausalEvent.parsedMid_some.mp hen
  have hmsg := hspelled.msgId_eq hel hfl hen hfn
  obtain rfl : e = f := eq_of_sent hwf.emits hel hfl (CausalEvent.sent_eq_some.mpr ⟨heop, hs⟩)
    (CausalEvent.sent_eq_some.mpr ⟨hfop, hmsg.symm.trans hs⟩)
  have hab : a = b := hea.symm.trans hfb
  subst hab
  have hnd := RecordedIndex.build_emits_nodup hwf.nodup a
  exact ⟨rfl, (List.getElem?_inj (List.getElem?_eq_some_iff.mp he).1 hnd).mp (he.trans hf.symm)⟩

/-- No drawn number is recorded. -/
def Machine.DrawnApart (log : List CausalEvent) (m : Machine τ α σ) : Prop :=
  ∀ a j, j < m.driver.state.sendCount a → OverSend (.build log) a j →
    ∀ e ∈ log, e.parsedMid ≠ some (2 ^ 64 - 1 - (j + 1))

namespace Machine

variable {m m' : Machine τ α σ}

theorem insertion_send {origins : List (ActorId × Boxed τ α)} {env : Envelope τ α}
    (he : m.emits = []) (h : m.insertion origins = some env) :
    (∃ addr msg as, m.actions = .send addr msg :: as) ∧
      env.msgId = m.driver.state.recorded.sendMid m.current m.sendIndex := by
  unfold insertion at h
  split at h
  · rename_i hcons
    rw [he] at hcons
    cases hcons
  · rename_i addr msg as _ ha
    cases h
    exact ⟨⟨addr, msg, as, ha⟩, rfl⟩
  · cases h

theorem insertion_seed {origins : List (ActorId × Boxed τ α)} {env : Envelope τ α}
    {we : CausalEvent} (he : m.emits.head? = some we) (h : m.insertion origins = some env) :
    we.parsedMid = some env.msgId ∧ m.position < origins.length := by
  obtain ⟨wes, hcons⟩ := List.head?_eq_some_iff.mp he
  simp only [insertion, hcons] at h
  obtain ⟨n, hn, h⟩ := Option.bind_eq_some_iff.mp h
  obtain ⟨o, ho, rfl⟩ := Option.map_eq_some_iff.mp h
  exact ⟨hn, (List.getElem?_eq_some_iff.mp ho).1⟩

variable [DecidableEq τ]

/-- **The key of the next envelope is not in use.** -/
theorem fresh_key (hwf : WellFormed log) (hspelled : SpelledOnce log)
    (hm : Reached sys log timeline m) (hsend : m.SendApart sys log) (hdrawn : m.DrawnApart log)
    (hfit : ∀ a, m.driver.state.sendCount a < 2 ^ 64) (hnext : m.sendIndex + 1 < 2 ^ 64)
    {env : Envelope τ α} (hins : m.insertion sys.origins = some env) :
    ¬ Used sys log m env.msgId := by
  cases hhead : m.emits.head? with
  | some we =>
    obtain ⟨hmid, -⟩ := insertion_seed hhead hins
    have hne : m.emits ≠ [] := fun hnil => by rw [hnil] at hhead; cases hhead
    rintro (@⟨k, we', hk, hwe, -, hn⟩ | @⟨a, j, hj, -⟩)
    · have := (emit_unique hwf hspelled hwe (hm.next_emit hhead) hn hmid).2
      omega
    · rw [hm.keyed.early hne a] at hj
      cases hj
  | none =>
    have he := List.head?_eq_none_iff.mp hhead
    obtain ⟨⟨addr, msg, as, ha⟩, hmid⟩ := insertion_send he hins
    have hsend := hsend addr msg as he ha
    rw [hm.recorded] at hmid
    rw [hmid]
    by_cases hover : OverSend (.build log) m.current m.sendIndex
    · rw [if_pos hover] at hsend
      obtain ⟨hothers, hrecorded⟩ := hsend
      rw [sendMid_of_over hover]
      rintro (@⟨k, we, hk, hwe, -, hn⟩ | @⟨a, j, hj, hn⟩)
      · exact hrecorded we (mem_of_emits hwe).1 hn
      · by_cases hover' : OverSend (.build log) a j
        · rw [sendMid_of_over hover'] at hn
          have hfita := hfit a
          obtain rfl : j = m.sendIndex := by omega
          by_cases hcur : a = m.current
          · rw [hcur] at hj
            exact lt_irrefl _ hj
          · exact absurd (hothers a hcur hover') (Nat.not_le.mpr hj)
        · obtain ⟨e, hej, hen⟩ := sendMid_of_not_over hover'
          rw [← hn] at hen
          exact hrecorded e (mem_of_emits hej).1 hen
    · rw [if_neg hover] at hsend
      obtain ⟨e, hej, hen⟩ := sendMid_of_not_over hover
      rintro (@⟨k, we, hk, hwe, ho, hn⟩ | @⟨a, j, hj, hn⟩)
      · obtain ⟨hworld, hindex⟩ := emit_unique hwf hspelled hwe hej hn hen
        have := hsend hworld.symm
        omega
      · by_cases hover' : OverSend (.build log) a j
        · rw [sendMid_of_over hover'] at hn
          exact hdrawn a j hj hover' e (mem_of_emits hej).1 (by rw [hen, hn])
        · obtain ⟨f, hfj, hfn⟩ := sendMid_of_not_over hover'
          rw [← hn] at hfn
          obtain ⟨ha', hindex⟩ := emit_unique hwf hspelled hfj hej hfn hen
          rw [ha', hindex] at hj
          exact lt_irrefl _ hj

/-- A number is drawn once the send that draws it found it unrecorded. -/
theorem DrawnApart.step (h : m.DrawnApart log)
    (hsend : m.SendApart sys log) (hnext : m.next sys.origins = some (.ok m')) :
    m'.DrawnApart log := by
  cases next_stashes hnext with
  | keep hins hstashed hpending hcount => rwa [DrawnApart, hcount]
  | seed he hins hmid ho hstashed hpending hcount => rwa [DrawnApart, hcount]
  | @send env he hins hmid hstashed hpending hcount =>
    obtain ⟨⟨addr, msg, as, ha⟩, -⟩ := insertion_send he hins
    have hsend := hsend addr msg as he ha
    intro a j hj hover
    rw [hcount, Function.update_apply] at hj
    by_cases hnew : a = m.current ∧ j = m.sendIndex
    · rw [hnew.1, hnew.2] at hover
      rw [if_pos hover] at hsend
      rw [hnew.2]
      exact hsend.2
    · refine h a j ?_ hover
      split at hj
      · rename_i hcur
        have hne : j ≠ m.sendIndex := fun hj' => hnew ⟨hcur, hj'⟩
        rw [hcur]
        unfold sendIndex at hj hne
        omega
      · exact hj

end Machine

/-- What keeps the keys of a replay apart: no number recorded in two spellings, and every send finds
its key unused. -/
structure Separated [DecidableEq τ] (sys : ReplaySystem τ α σ)
    (log timeline : List CausalEvent) : Prop where
  spelled : SpelledOnce log
  sends : ∀ m, Machine.Reached sys log timeline m → m.SendApart sys log

/-- No envelope is lost from `pending`, and numbers pair the events that strings pair. -/
structure KeysApart [DecidableEq τ] (sys : ReplaySystem τ α σ)
    (log timeline : List CausalEvent) : Prop where
  numbers : ∀ e ∈ log, ∀ f ∈ log, ∀ s t n, e.msgId = some s → f.msgId = some t →
    parseMid s = some n → parseMid t = some n → s = t
  paired : ∀ e ∈ log, ∀ r ∈ log, e.op = .emit → r.op = .recv → r.parsedMid ≠ none →
    (e.parsedMid = r.parsedMid ↔ e.msgId = r.msgId)
  kept : ∀ m, Machine.Reached sys log timeline m → ∀ env, m.insertion sys.origins = some env →
    m.driver.state.pending env.msgId = none
  keys : ∀ m, Machine.Reached sys log timeline m →
    (m.driver.state.journal.stashed.map (·.msgId)).Nodup
  sentinels : ∀ m, Machine.Reached sys log timeline m → ∀ n, m.sentinel = some n →
    (∀ e ∈ log, e.parsedMid ≠ some n) ∧ ∀ env ∈ m.driver.state.journal.stashed, env.msgId ≠ n

open Machine

variable [DecidableEq τ] {r : Replayed}

theorem Separated.drawn (h : Separated sys log timeline) {m : Machine τ α σ}
    (hm : Reached sys log timeline m) : m.DrawnApart log := by
  induction hm with
  | entry => exact fun a j hj => (by cases hj)
  | step hm hnext ih => exact ih.step (h.sends _ hm) hnext

omit [DecidableEq τ] in
theorem sentinel_some {m : Machine τ α σ} {n : Nat} (h : m.sentinel = some n) :
    (∃ addr msg as, m.emits = [] ∧ m.actions = .send addr msg :: as) ∧
      OverSend m.driver.state.recorded m.current m.sendIndex ∧
      n = 2 ^ 64 - 1 - (m.sendIndex + 1) := by
  unfold sentinel at h
  split at h
  · rename_i addr msg as he ha
    split at h
    · rename_i hover
      cases h
      exact ⟨⟨addr, msg, as, he, ha⟩, hover, rfl⟩
    · cases h
  · cases h

/-- A send always has a next state, in which it is counted. -/
theorem next_send (origins : List (ActorId × Boxed τ α)) {m : Machine τ α σ} {addr : Addr τ}
    {msg : α} {as : List (Action (Addr τ) α)} (he : m.emits = [])
    (ha : m.actions = .send addr msg :: as) : ∃ m' env, m.next origins = some (.ok m') ∧
      m.insertion origins = some env ∧
      m'.driver.state.sendCount m.current = m.sendIndex + 1 ∧
      m'.driver.state.journal.stashed.Perm (env :: m.driver.state.journal.stashed) := by
  obtain ⟨m', hnext⟩ : ∃ m', m.next origins = some (.ok m') := by
    simp only [next, he, ha]
    exact ⟨_, rfl⟩
  have hsome : m.insertion origins ≠ none := by simp [insertion, he, ha]
  cases next_stashes hnext with
  | keep hins => exact absurd hins hsome
  | seed he' => rw [he] at he'; cases he'
  | @send env he' hins hmid hstashed hpending hcount =>
    exact ⟨m', env, hnext, hins, by rw [hcount, Function.update_self], hstashed⟩

theorem Separated.fresh (h : Separated sys log timeline) (hwf : WellFormed log)
    (hfit : ∀ m, Reached sys log timeline m → ∀ a, m.driver.state.sendCount a < 2 ^ 64)
    {m : Machine τ α σ} (hm : Reached sys log timeline m) {env : Envelope τ α}
    (hins : m.insertion sys.origins = some env) : ¬ Used sys log m env.msgId := by
  have hnext : m.sendIndex + 1 < 2 ^ 64 := by
    by_cases he : m.emits = []
    · obtain ⟨⟨addr, msg, as, ha⟩, -⟩ := insertion_send he hins
      obtain ⟨m', -, hnext, -, hcount, -⟩ := next_send sys.origins he ha
      rw [← hcount]
      exact hfit m' (hm.step hnext) m.current
    · have hzero : m.sendIndex = 0 := hm.keyed.early he m.current
      rw [hzero]
      decide
  exact fresh_key hwf h.spelled hm (h.sends m hm) (h.drawn hm) (hfit m hm) hnext hins

/-- **Where the sends find their keys unused, every envelope has a key of its own.** -/
theorem Separated.keysApart (h : Separated sys log timeline) (hwf : WellFormed log)
    (hfit : ∀ m, Reached sys log timeline m → ∀ a, m.driver.state.sendCount a < 2 ^ 64) :
    KeysApart sys log timeline where
  numbers e he f hf s t n hs ht hsn htn := by
    refine h.spelled e he f hf s t hs ht ?_ ?_ ((parseMid_eq_iff hsn htn).mp rfl)
    · rw [hsn]; exact Option.some_ne_none n
    · rw [htn]; exact Option.some_ne_none n
  paired e he r hr _ _ hparsed := by
    constructor
    · intro heq
      obtain ⟨n, hn⟩ := Option.ne_none_iff_exists'.mp hparsed
      exact h.spelled.msgId_eq he hr (heq.trans hn) hn
    · intro heq
      rw [CausalEvent.parsedMid, heq, CausalEvent.parsedMid]
  kept m hm env hins := by
    by_contra hsome
    obtain ⟨env', henv'⟩ := Option.ne_none_iff_exists'.mp hsome
    obtain ⟨hid, hst⟩ := hm.keyed.waiting _ _ henv'
    exact h.fresh hwf hfit hm hins ((hm.keyed.used _).mp ⟨env', hst, hid⟩)
  keys m hm := by
    have hput : ∀ {m : Machine τ α σ}, Reached sys log timeline m → ∀ {env : Envelope τ α}
        {stashed : List (Envelope τ α)}, m.insertion sys.origins = some env →
        stashed.Perm (env :: m.driver.state.journal.stashed) →
        (m.driver.state.journal.stashed.map (·.msgId)).Nodup →
        (stashed.map (·.msgId)).Nodup := by
      intro m hm env stashed hins hperm ih
      rw [(hperm.map _).nodup_iff, List.map_cons, List.nodup_cons]
      refine ⟨fun hmem => h.fresh hwf hfit hm hins ((hm.keyed.used _).mp ?_), ih⟩
      obtain ⟨env', henv', hid⟩ := List.mem_map.mp hmem
      exact ⟨env', henv', hid⟩
    induction hm with
    | entry => exact List.nodup_nil
    | @step m m' hm hnext ih =>
      cases next_stashes hnext with
      | keep hins hstashed hpending hcount => rwa [hstashed]
      | seed he hins hmid ho hstashed hpending hcount => exact hput hm hins hstashed ih
      | send he hins hmid hstashed hpending hcount => exact hput hm hins hstashed ih
  sentinels m hm n hn := by
    obtain ⟨⟨addr, msg, as, he, ha⟩, hover, rfl⟩ := sentinel_some hn
    rw [hm.recorded] at hover
    have hsend := h.sends m hm addr msg as he ha
    rw [if_pos hover] at hsend
    refine ⟨hsend.2, fun env henv hid => ?_⟩
    obtain ⟨m', env', -, hins, -⟩ := next_send sys.origins he ha
    have hmid := (insertion_send he hins).2
    rw [hm.recorded, sendMid_of_over hover] at hmid
    refine h.fresh hwf hfit hm hins ((hm.keyed.used _).mp ⟨env, henv, ?_⟩)
    rw [hid, hmid]

/-- **Where every envelope has a key of its own, the sends have found theirs unused.** -/
theorem KeysApart.separated (h : KeysApart sys log timeline) : Separated sys log timeline where
  spelled e he f hf s t hs ht hps hpt hbare := by
    obtain ⟨m, hm⟩ := Option.ne_none_iff_exists'.mp hps
    obtain ⟨n, hn⟩ := Option.ne_none_iff_exists'.mp hpt
    obtain rfl := (parseMid_eq_iff hm hn).mpr hbare
    exact h.numbers e he f hf s t m hs ht hm hn
  sends m hm addr msg as he ha := by
    split
    · rename_i hover
      have hdraws : m.sentinel = some (2 ^ 64 - 1 - (m.sendIndex + 1)) := by
        simp only [sentinel, he, ha, hm.recorded, if_pos hover]
      obtain ⟨hrecorded, hstashed⟩ := h.sentinels m hm _ hdraws
      refine ⟨fun b _ hover' => ?_, hrecorded⟩
      by_contra hlt
      obtain ⟨env, henv, hid⟩ := (hm.keyed.used _).mpr (.sent (Nat.not_le.mp hlt) rfl)
      rw [sendMid_of_over hover'] at hid
      exact hstashed env henv hid
    · rename_i hover
      intro hworld
      by_contra hlt
      obtain ⟨e, hej, hen⟩ := sendMid_of_not_over hover
      rw [hworld] at hej
      have hpos : m.sendIndex < m.position := by
        have hdrop := hm.emits
        rw [he, eq_comm, List.drop_eq_nil_iff] at hdrop
        exact (List.getElem?_eq_some_iff.mp hej).1.trans_le hdrop
      obtain ⟨env', henv', hid'⟩ := (hm.keyed.used _).mpr
        (.seeded hpos hej (Nat.not_le.mp hlt) hen)
      -- the send puts its envelope beside the seeded one
      obtain ⟨m', env, hnext, hins, -, hperm⟩ := next_send sys.origins he ha
      have hmid := (insertion_send he hins).2
      rw [hm.recorded, ← hid'] at hmid
      have hnd := h.keys m' (hm.step hnext)
      rw [(hperm.map _).nodup_iff, List.map_cons, List.nodup_cons] at hnd
      exact hnd.1 (List.mem_map.mpr ⟨env', henv', hmid.symm⟩)

/-- **The keys of a replay are apart exactly when no number is recorded in two spellings and every
send finds its key unused**, as long as the send counters stay in range. -/
theorem pending_apart (hlog : replayLog log = .ok r) :
    (KeysApart sys log r.timeline → Separated sys log r.timeline) ∧
    (Separated sys log r.timeline →
      (∀ m, Reached sys log r.timeline m → ∀ a, m.driver.state.sendCount a < 2 ^ 64) →
      KeysApart sys log r.timeline) := by
  obtain ⟨_, -, hacc, -⟩ := replayLog_ok.mp hlog
  exact ⟨KeysApart.separated, fun h hfit => h.keysApart hacc.wellFormed hfit⟩

end Apart

/-! ## One number in two spellings -/

/-- Who was not rebuilt sends nothing. -/
theorem Machine.Reached.sendCount_eq_zero [DecidableEq τ] {sys : ReplaySystem τ α σ}
    {log timeline : List CausalEvent} {m : Machine τ α σ}
    (hm : Machine.Reached sys log timeline m) {b : ActorId} (hb : b ∉ sys.actors) :
    m.driver.state.sendCount b = 0 := by
  induction hm with
  | entry => rfl
  | @step m m' hm hnext ih =>
    cases next_stashes hnext with
    | keep hins hstashed hpending hcount => rw [hcount, ih]
    | seed he hins hmid ho hstashed hpending hcount => rw [hcount, ih]
    | send he hins hmid hstashed hpending hcount =>
      obtain ⟨⟨addr, msg, as, ha⟩, -⟩ := insertion_send he hins
      have hcur : b ≠ m.current := by
        rintro rfl
        exact hb (hm.housed.current (by rw [ha]; simp))
      rw [hcount, Function.update_of_ne hcur, ih]

/-- A relay that passes every number on twice. -/
def eagerRelay : Actor (Addr Unit) Unit Nat Unit where
  msgType := ()
  started s := (s, [])
  handle s x := (s, [.send ⟨"sink", ()⟩ (x + 1), .send ⟨"sink", ()⟩ (x + 1)])

def eagerSystem : ReplaySystem Unit Nat Unit :=
  ((ReplaySystem.new.spawn "sink" ⟨sink, ()⟩).spawn "relay" ⟨eagerRelay, ()⟩).origin
    ⟨"relay", ()⟩ 1

/-- The second send of the eager relay draws a number that nobody else draws and no line has. -/
theorem pending_apart_relay : ∃ r, replayLog (relayLog "sink") = .ok r ∧
    (∃ m, Machine.Reached eagerSystem (relayLog "sink") r.timeline m ∧
      m.sentinel = some (2 ^ 64 - 1 - 2)) ∧
    KeysApart eagerSystem (relayLog "sink") r.timeline := by
  have hok : (replayLog (relayLog "sink")).toOption.map (·.timeline) =
      some (relayLog "sink") := by decide
  have hlen : ((Machine.init eagerSystem (relayLog "sink") (relayLog "sink")).trace
      eagerSystem.origins 12).length ≤ 12 := by decide
  have hsome : ((Machine.init eagerSystem (relayLog "sink") (relayLog "sink")).trace
      eagerSystem.origins 12).any (fun m => m.sentinel = some (2 ^ 64 - 1 - 2)) = true := by decide
  have hall : ((Machine.init eagerSystem (relayLog "sink") (relayLog "sink")).trace
      eagerSystem.origins 12).all (fun m => (m.sentinel.isNone || m.current = "relay" &&
        m.sendIndex = 1 && m.driver.state.sendCount "sink" = 0) &&
        (m.actions.isEmpty || m.current != "world") && m.stamped ≤ 5) = true := by decide
  have hnames : ∀ b, b ∈ eagerSystem.actors → "relay" = b ∨ "sink" = b := by
    intro b hb
    simpa [eagerSystem, ReplaySystem.spawn, ReplaySystem.new, ReplaySystem.origin] using hb
  cases hr : replayLog (relayLog "sink") with
  | error e => rw [hr] at hok; cases hok
  | ok r =>
    rw [hr] at hok
    have htimeline : r.timeline = relayLog "sink" := Option.some.inj hok
    have hmem : ∀ m, Machine.Reached eagerSystem (relayLog "sink") r.timeline m →
        (m.sentinel = none ∨ m.current = "relay" ∧ m.sendIndex = 1 ∧
          m.driver.state.sendCount "sink" = 0) ∧
        (m.actions = [] ∨ m.current ≠ "world") ∧ m.stamped ≤ 5 := by
      intro m hm
      rw [htimeline] at hm
      simpa [and_assoc] using List.all_eq_true.mp hall m (hm.mem_trace hlen)
    refine ⟨r, rfl, ?_, (pending_apart hr).2
      ⟨.of_plain (relayLog_plain "sink"), fun m hm => ?_⟩ fun m hm a => ?_⟩
    · obtain ⟨m, hm, hsentinel⟩ := List.any_eq_true.mp hsome
      rw [htimeline]
      exact ⟨m, Machine.Reached.entry.of_mem_trace hm, of_decide_eq_true hsentinel⟩
    · obtain ⟨hsentinel, hworld, -⟩ := hmem m hm
      intro addr msg as he ha
      split
      · rename_i hover
        simp only [Machine.sentinel, he, ha, hm.recorded, if_pos hover, reduceCtorEq,
          false_or] at hsentinel
        obtain ⟨hcur, hindex, hsink⟩ := hsentinel
        rw [hindex]
        refine ⟨fun b hb _ => ?_, by decide⟩
        by_cases hactor : b ∈ eagerSystem.actors
        · rcases hnames b hactor with rfl | rfl
          · exact absurd hcur.symm hb
          · omega
        · rw [hm.sendCount_eq_zero hactor]
          omega
      · intro hcur
        rcases hworld with hnil | hne
        · rw [ha] at hnil
          cases hnil
        · exact absurd hcur hne
    · have hbelow : OriginsBelow eagerSystem (relayLog "sink") 1 := suppliedSystem_below
      have hsends := (hm.bounded hbelow).sends a
      have hstamped := (hmem m hm).2.2
      omega

/-- Two messages from outside, the second recorded as `m07` where the first is `m7`, and their
receipts. -/
def respelledLog : List CausalEvent :=
  let c := Stamps.zero.bump "world"
  let first := c.envelope "world" 7 (⟨"sink", ()⟩ : Addr Unit) 1
  let second := (c.bump "world").envelope "world" 7 (⟨"sink", ()⟩ : Addr Unit) 2
  let s₁ := Stamps.zero.receive "sink" first
  let s₂ := s₁.receive "sink" second
  [emitEvent "world" 1 first, { emitEvent "world" 2 second with msgId := some "m07" },
    recvEvent "sink" s₁.seq s₁.clock s₁.lamport.val first,
    { recvEvent "sink" s₂.seq s₂.clock s₂.lamport.val second with msgId := some "m07" }]

/-- The log is accepted, and seeding the second message drops the first, which is still waiting. -/
theorem pending_loses : ¬ ∀ (log : List CausalEvent) (r : Replayed)
    (sys : ReplaySystem Unit Nat Unit), replayLog log = .ok r → KeysApart sys log r.timeline := by
  intro hall
  have hok : (replayLog respelledLog).toOption.isSome = true := by decide
  obtain ⟨sys, hsys⟩ : ∃ sys, sys = sinkSystem.origin ⟨"sink", ()⟩ 2 := ⟨_, rfl⟩
  cases hr : replayLog respelledLog with
  | error e => rw [hr] at hok; cases hok
  | ok r =>
    have hlost : ((Machine.init sys respelledLog r.timeline).trace sys.origins 1)[1]?.map (fun m =>
        ((m.insertion sys.origins).map (·.msgId), (m.driver.state.pending 7).isSome)) =
        some (some 7, true) := by
      rw [hsys]
      rfl
    obtain ⟨m, hm, hboth⟩ := Option.map_eq_some_iff.mp hlost
    obtain ⟨hins, hwaits⟩ := Prod.mk.inj hboth
    obtain ⟨env, henv, hid⟩ := Option.map_eq_some_iff.mp hins
    have hkept := (hall _ r sys hr).kept m (.of_mem_trace .entry (List.mem_of_getElem? hm)) env henv
    rw [hid] at hkept
    rw [hkept] at hwaits
    cases hwaits

end Lichtung
