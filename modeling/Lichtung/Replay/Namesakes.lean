import Lichtung.Replay.LineOrder
import Lichtung.Replay.Restamp

/-!
# Lines that share an id

The verdict depends on the order of the lines where an event that the rebuilt actors re-produce has
a namesake, and nothing else is amiss.  Whether a log can be of this kind shows in the ids and the
coordinates of its lines alone: for any such lines there are actors that leave nothing else amiss.

Principal results: `Machine.Reached.enumerated` (what is re-produced is numbered from 1 without a
gap) and `verdict_shuffle_iff`.
-/

namespace Lichtung

variable {τ α σ : Type}

/-! ## The identity of an event -/

/-- What a line says of the identity of its event. -/
structure Tag where
  id : String
  actor : ActorId
  seq : Nat
  deriving DecidableEq

def CausalEvent.tag (e : CausalEvent) : Tag := ⟨e.id, e.actor, e.seq⟩

/-- The tag of the event number `n` of the actor `a`, under the recorder's id. -/
def Tag.of (a : ActorId) (n : Nat) : Tag := ⟨idOf a n, a, n⟩

section Tags

variable (tags : List Tag) (names : List ActorId)

/-- The lines have the first `n` events of the actor `a`. -/
def Begun (a : ActorId) (n : Nat) : Prop := ∀ k < n, Tag.of a (k + 1) ∈ tags

instance (a : ActorId) (n : Nat) : Decidable (Begun tags a n) :=
  inferInstanceAs (Decidable (∀ k < n, Tag.of a (k + 1) ∈ tags))

/-- The tag of an event that a rebuilt actor can re-produce: numbered from 1 without a gap. -/
structure Tag.Own (t : Tag) : Prop where
  rebuilt : t.actor ∈ names
  pos : 0 < t.seq
  id : t.id = idOf t.actor t.seq
  begun : Begun tags t.actor t.seq

instance (t : Tag) : Decidable (t.Own tags names) :=
  decidable_of_iff (t.actor ∈ names ∧ 0 < t.seq ∧ t.id = idOf t.actor t.seq ∧
    Begun tags t.actor t.seq) ⟨fun ⟨h, h', h'', h'''⟩ => ⟨h, h', h'', h'''⟩,
      fun ⟨h, h', h'', h'''⟩ => ⟨h, h', h'', h'''⟩⟩

/-- The lines have distinct coordinates, each id is that of an event that can be re-produced or of a
`world` event, and some event that can be re-produced shares its id with another line. -/
structure Ambiguous : Prop where
  coords : (tags.map fun t => (t.actor, t.seq)).Nodup
  covered : ∀ t ∈ tags, ∃ u ∈ tags, u.id = t.id ∧ (u.Own tags names ∨ u.actor = "world")
  aliased : ∃ t ∈ tags, t.Own tags names ∧ ∃ u ∈ tags, u ≠ t ∧ u.id = t.id

instance : Decidable (Ambiguous tags names) :=
  decidable_of_iff ((tags.map fun t => (t.actor, t.seq)).Nodup ∧
    (∀ t ∈ tags, ∃ u ∈ tags, u.id = t.id ∧ (u.Own tags names ∨ u.actor = "world")) ∧
    ∃ t ∈ tags, t.Own tags names ∧ ∃ u ∈ tags, u ≠ t ∧ u.id = t.id)
    ⟨fun ⟨h, h', h''⟩ => ⟨h, h', h''⟩, fun ⟨h, h', h''⟩ => ⟨h, h', h''⟩⟩

variable {tags names}

theorem Tag.Own.eq_of {t : Tag} (h : t.Own tags names) : t = .of t.actor t.seq := by
  obtain ⟨id, a, n⟩ := t
  exact congrArg (Tag.mk · a n) h.id

theorem Tag.Own.mem {t : Tag} (h : t.Own tags names) : t ∈ tags := by
  have hlast := h.begun (t.seq - 1) (Nat.sub_lt h.pos Nat.one_pos)
  rw [Nat.sub_add_cancel h.pos, ← h.eq_of] at hlast
  exact hlast

theorem Begun.mono {a : ActorId} {m n : Nat} (h : Begun tags a n) (hle : m ≤ n) : Begun tags a m :=
  fun k hk => h k (hk.trans_le hle)

/-- As many consecutive events of an actor take as many lines. -/
theorem length_of_consecutive {a : ActorId} {i n : Nat} (h : ∀ k < n, Tag.of a (k + i) ∈ tags) :
    n ≤ tags.length := by
  have hnd : ((List.range n).map fun k => Tag.of a (k + i)).Nodup := by
    refine List.nodup_range.map fun k l hkl => ?_
    have hseq : k + i = l + i := congrArg Tag.seq hkl
    omega
  have hsub : ((List.range n).map fun k => Tag.of a (k + i)) ⊆ tags := by
    intro t ht
    obtain ⟨k, hk, rfl⟩ := List.mem_map.mp ht
    exact h k (List.mem_range.mp hk)
  simpa using (hnd.subperm hsub).length_le

end Tags

/-! ## What a replay re-produces -/

/-- The actor `a` has produced its first `n` events. -/
def Filled (events : List CausalEvent) (a : ActorId) (n : Nat) : Prop :=
  ∀ k < n, ∃ e ∈ events, e.actor = a ∧ e.seq = k + 1

section Filled

variable {events : List CausalEvent} {a : ActorId} {n : Nat} {e : CausalEvent}

theorem Filled.mono (h : Filled events a n) {events' : List CausalEvent} (hsub : events ⊆ events')
    {m : Nat} (hle : m ≤ n) : Filled events' a m := fun k hk =>
  (h k (hk.trans_le hle)).imp fun _ he => ⟨hsub he.1, he.2⟩

/-- The next event is the next in number, or one that a wrapped counter gives again. -/
theorem Filled.snoc [Counter] (h : Filled events a n) (ha : e.actor = a)
    (hseq : e.seq = Counter.succ n) : Filled (events ++ [e]) a (Counter.succ n) := by
  intro k hk
  have hle := Counter.succ_le n
  by_cases hkn : k < n
  · obtain ⟨f, hf, hf'⟩ := h k hkn
    exact ⟨f, List.mem_append_left _ hf, hf'⟩
  · exact ⟨e, by simp, ha, by omega⟩

end Filled

/-- The events of a replay are numbered from 1 without a gap, and what it counts as produced are
their ids and those of `world` emits. -/
structure Machine.Enumerated (log : List CausalEvent) (m : Machine τ α σ) : Prop where
  clocks : ∀ a, Filled m.driver.state.journal.events a (m.driver.clocks a).seq
  ids : ∀ e ∈ m.driver.state.journal.events, e.id = idOf e.actor e.seq
  filled : ∀ e ∈ m.driver.state.journal.events, Filled m.driver.state.journal.events e.actor e.seq
  positive : ∀ e ∈ m.driver.state.journal.events,
    e.seq = 0 → Filled m.driver.state.journal.events e.actor (2 ^ 64 - 1)
  produced : ∀ x ∈ m.driver.state.produced, (∃ e ∈ m.driver.state.journal.events, e.id = x) ∨
    ∃ we ∈ log, we.actor = "world" ∧ we.id = x

namespace Machine

variable [Counter] {log timeline : List CausalEvent} {m m' : Machine τ α σ}

omit [Counter] in
/-- A step that produces nothing by `verify`. -/
theorem Enumerated.still (h : m.Enumerated log) (hclocks : m'.driver.clocks = m.driver.clocks)
    (hevents : m'.driver.state.journal.events = m.driver.state.journal.events)
    (hproduced : ∀ x ∈ m'.driver.state.produced, x ∈ m.driver.state.produced ∨
      ∃ we ∈ log, we.actor = "world" ∧ we.id = x) : m'.Enumerated log where
  clocks := by
    rw [hclocks, hevents]
    exact h.clocks
  ids := by
    rw [hevents]
    exact h.ids
  filled := by
    rw [hevents]
    exact h.filled
  positive := by
    rw [hevents]
    exact h.positive
  produced := by
    intro x hx
    rw [hevents]
    exact (hproduced x hx).elim (h.produced x) .inr

/-- A step that stamps the event `e` of the actor `a`. -/
theorem Enumerated.snoc (h : m.Enumerated log) {a : ActorId} {c : Stamps} {e : CausalEvent}
    (hc : c.seq = Counter.succ (m.driver.clocks a).seq) (ha : e.actor = a) (he : e.seq = c.seq)
    (hid : e.id = idOf e.actor e.seq)
    (hclocks : m'.driver.clocks = Function.update m.driver.clocks a c)
    (hevents : m'.driver.state.journal.events = m.driver.state.journal.events ++ [e])
    (hproduced : ∀ x ∈ m'.driver.state.produced, x ∈ m.driver.state.produced ∨ e.id = x) :
    m'.Enumerated log := by
  have hsub : m.driver.state.journal.events ⊆ m'.driver.state.journal.events := by
    rw [hevents]
    exact List.subset_append_left _ _
  have hnew : Filled m'.driver.state.journal.events a c.seq := by
    rw [hevents, hc]
    exact (h.clocks a).snoc ha (he.trans hc)
  have hcases : ∀ f ∈ m'.driver.state.journal.events,
      f ∈ m.driver.state.journal.events ∨ f = e := by
    intro f hf
    rw [hevents] at hf
    exact (List.mem_append.mp hf).imp_right List.mem_singleton.mp
  refine ⟨fun b => ?_, fun f hf => ?_, fun f hf => ?_, fun f hf hzero => ?_, fun x hx => ?_⟩
  · rw [hclocks]
    by_cases hb : b = a
    · rw [hb, Function.update_self]
      exact hnew
    · rw [Function.update_of_ne hb]
      exact (h.clocks b).mono hsub (Nat.le_refl _)
  · rcases hcases f hf with hf | rfl
    · exact h.ids f hf
    · exact hid
  · rcases hcases f hf with hf | rfl
    · exact (h.filled f hf).mono hsub (Nat.le_refl _)
    · rw [ha, he]
      exact hnew
  · rcases hcases f hf with hf | rfl
    · exact (h.positive f hf hzero).mono hsub (Nat.le_refl _)
    · -- the counter has come round: all numbers were used before
      have hlast : 2 ^ 64 - 1 ≤ (m.driver.clocks a).seq := by
        by_contra hlt
        have := Counter.succ_of_lt (m.driver.clocks a).seq (by omega)
        omega
      rw [ha]
      exact (h.clocks a).mono hsub hlast
  · rcases hproduced x hx with hx | hx
    · exact (h.produced x hx).imp_left fun ⟨f, hf, hfx⟩ => ⟨f, hsub hf, hfx⟩
    · exact .inl ⟨e, by rw [hevents]; simp, hx⟩

variable [DecidableEq τ] {sys : ReplaySystem τ α σ}

theorem Enumerated.step (h : m.Enumerated log) (hm : Reached sys log timeline m)
    (hnext : m.next sys.origins = some (.ok m')) : m'.Enumerated log := by
  cases next_change hnext with
  | quiet ds hclocks hstate =>
    refine h.still hclocks (by rw [hstate]) fun x hx => .inl ?_
    rwa [hstate] at hx
  | @seed we n o he hmid ho hclocks hstate =>
    refine h.still hclocks (by rw [hstate]; rfl) fun x hx => ?_
    rw [hstate] at hx
    rcases Finset.mem_insert.mp hx with rfl | hx
    · rw [hm.emits, List.head?_drop] at he
      obtain ⟨hlog, -, hworld⟩ := RecordedIndex.mem_build_emits.mp (List.mem_of_getElem? he)
      exact .inr ⟨we, hlog, hworld, rfl⟩
    · exact .inl hx
  | @compute c he ha hc hclocks hstate =>
    refine h.snoc (c := c) (e := computeEvent m.current c.seq c.clock c.lamport.val)
      (by rw [hc]; rfl) rfl rfl rfl hclocks (by rw [hstate]; rfl) fun x hx => ?_
    rw [hstate] at hx
    exact (Finset.mem_insert.mp hx).symm.imp_right Eq.symm
  | @send c addr msg env he ha hc henv hclocks heff =>
    refine h.snoc (c := c) (e := emitEvent m.current c.seq env)
      (by rw [hc]; rfl) rfl rfl rfl hclocks (by rw [heff.journal]) fun x hx => ?_
    refine ((heff.produced x).mp hx).imp_right ?_
    rintro ⟨e, he, hid⟩
    rw [List.mem_singleton.mp he] at hid
    exact hid
  | @recv ev n c env ds he ha hn ht hop hmid henv hc hclocks hstate =>
    refine h.snoc (c := c) (e := recvEvent ev.actor c.seq c.clock c.lamport.val env)
      (by rw [hc]; rfl) rfl rfl rfl hclocks (by rw [hstate]; rfl) fun x hx => ?_
    rw [hstate] at hx
    exact (Finset.mem_insert.mp hx).symm.imp_right Eq.symm

/-- **What a replay re-produces is numbered from 1 without a gap.** -/
theorem Reached.enumerated (hm : Reached sys log timeline m) : m.Enumerated log := by
  induction hm with
  | entry =>
    refine ⟨fun a k hk => (Nat.not_lt_zero k hk).elim, fun e he => ?_, fun e he => ?_,
      fun e he => ?_, fun x hx => ?_⟩
    · cases he
    · cases he
    · cases he
    · simp [init, ReplayState.init] at hx
  | step hm hnext ih => exact ih.step hm hnext

end Machine

/-! ## Logs that cannot be ambiguous -/

section Unambiguous

variable [Counter] [DecidableEq τ] {sys : ReplaySystem τ α σ} {log log' : List CausalEvent}
  {names : List ActorId} {r : Replayed}

/-- An event that a replay without a report has produced is tagged as one that can be. -/
theorem own_of_produced {timeline : List CausalEvent} {m : Machine τ α σ}
    (hm : Machine.Reached sys log timeline m) (hs : m.driver.state.divergences = [])
    (hnames : ∀ a, a ∈ sys.actors ↔ a ∈ names) {tags : List Tag} (hlen : tags.length < 2 ^ 64)
    (hrec : ∀ e ∈ m.driver.state.journal.events, e.tag ∈ tags) {e : CausalEvent}
    (he : e ∈ m.driver.state.journal.events) : e.tag.Own tags names := by
  have henum := hm.enumerated
  have htag : ∀ f ∈ m.driver.state.journal.events, f.tag = .of f.actor f.seq := fun f hf =>
    congrArg (Tag.mk · f.actor f.seq) (henum.ids f hf)
  have hbegun : ∀ {a n}, Filled m.driver.state.journal.events a n → Begun tags a n := by
    intro a n h k hk
    obtain ⟨f, hf, rfl, hseq⟩ := h k hk
    rw [← hseq, ← htag f hf]
    exact hrec f hf
  refine ⟨(hnames _).mp (hm.housed.rebuilt hs e he), ?_, henum.ids e he, hbegun (henum.filled e he)⟩
  -- with a number 0 the lines would be more than a `usize` counts
  by_contra hpos
  have hzero : e.seq = 0 := Nat.eq_zero_of_not_pos hpos
  have hall : ∀ k < 2 ^ 64, Tag.of e.actor (k + 0) ∈ tags := by
    intro k hk
    cases k with
    | zero =>
      have := hrec e he
      rwa [htag e he, hzero] at this
    | succ k => exact hbegun (henum.positive e he hzero) k (by omega)
  have := length_of_consecutive hall
  omega

/-- Where two orders of a log have different verdicts its lines are ambiguous. -/
theorem ambiguous_of_differs (hlen : log.length < 2 ^ 64) (hnames : ∀ a, a ∈ sys.actors ↔ a ∈ names)
    (hdiff : ¬ ∀ log', log.Perm log' → SameVerdict (sys.replay log) (sys.replay log')) :
    Ambiguous (log.map (·.tag)) names := by
  rw [sameVerdict_iff] at hdiff
  push Not at hdiff
  obtain ⟨r, d₀, hlog, hd₀, hsound, e, he, f, hf, hid, hne⟩ := hdiff
  have hwf := (replayLog_ok_iff.mp ⟨r, hlog⟩).wellFormed
  have hshuffled : ∀ {log'}, log.Perm log' → ∃ d, sys.reexecute log' r.timeline = .ok d ∧
      (∀ e ∈ d₀.state.journal.events, e.id = idOf e.actor e.seq) ∧
      d.state.journal = d₀.state.journal ∧
      (d.state.divergences = [] ↔ ∀ e ∈ d₀.state.journal.events,
        (RecordedIndex.build log').byId e.id = some e) := by
    intro log' hp
    rcases replay_shuffled sys hlog hp with
      ⟨_, herr, -⟩ | ⟨d₁, out, hd₁, -, hids, hiff, d, hre, hdiv, hjournal⟩
    · rw [herr] at hd₀
      cases hd₀
    · cases hd₀.symm.trans hd₁
      exact ⟨d, hre, hids, hjournal, hdiv ▸ hiff.trans (and_iff_right hsound)⟩
  -- an order in which every lookup succeeds, and the replay of it
  obtain ⟨-, -, hids, -, -⟩ := hshuffled (.refl log)
  obtain ⟨log₁, hp, hfound⟩ := exists_found hwf hids hsound.recorded
  obtain ⟨d, hre, -, hjournal, hiff⟩ := hshuffled hp
  obtain ⟨m, hm, -, rfl⟩ := Machine.reexecute_ok_iff.mp hre
  have hnil : (m.driver.state.complete log₁).divergences = [] := hiff.mpr hfound
  obtain ⟨hsame, hall⟩ := complete_silent hnil
  rw [hsame] at hnil
  have hevents : m.driver.state.journal = d₀.state.journal := by
    rw [← hjournal]
    exact (complete_journal log₁ m.driver.state).symm
  have hlogged : ∀ e ∈ m.driver.state.journal.events, e ∈ log := fun e he =>
    hsound.recorded e (hevents ▸ he)
  have hown : ∀ e ∈ m.driver.state.journal.events, e.tag.Own (log.map (·.tag)) names := fun e he =>
    own_of_produced hm hnil hnames (by rwa [List.length_map])
      (fun f hf => List.mem_map_of_mem (hlogged f hf)) he
  refine ⟨?_, fun t ht => ?_, e.tag, List.mem_map_of_mem (hsound.recorded e he),
    hown e (hevents.symm ▸ he), f.tag, List.mem_map_of_mem hf, fun htag => hne ?_, hid⟩
  · rw [List.map_map]
    exact hwf.coords
  · obtain ⟨g, hg, rfl⟩ := List.mem_map.mp ht
    rcases hm.enumerated.produced g.id (hall g (hp.mem_iff.mp hg)) with
      ⟨e', he', hid'⟩ | ⟨we, hwe, hworld, hid'⟩
    · exact ⟨e'.tag, List.mem_map_of_mem (hlogged e' he'), hid', .inl (hown e' he')⟩
    · exact ⟨we.tag, List.mem_map_of_mem (hp.mem_iff.mpr hwe), hid', .inr hworld⟩
  · exact hwf.eq_of_coords hf (hsound.recorded e he) (congrArg Tag.actor htag)
      (congrArg Tag.seq htag)

end Unambiguous

/-! ## A log for ambiguous lines -/

/-- The stamps of the actor `a` after `n` events of its own. -/
def Stamps.alone (a : ActorId) (n : Nat) : Stamps := (fun c : Stamps => c.bump a)^[n] .zero

/-- The event number `n` of an actor that only computes. -/
def tick (a : ActorId) (n : Nat) : CausalEvent :=
  computeEvent a n (Stamps.alone a n).clock (Stamps.alone a n).lamport.val

namespace Stamps

variable {a : ActorId} {n : Nat}

theorem alone_succ (a : ActorId) (n : Nat) : alone a (n + 1) = (alone a n).bump a :=
  Function.iterate_succ_apply' _ n _

theorem alone_seq (a : ActorId) : ∀ n, (alone a n).seq = n
  | 0 => rfl
  | n + 1 => by rw [alone_succ, bump_seq, alone_seq a n]

theorem alone_lamport (a : ActorId) : ∀ n, (alone a n).lamport.val = n
  | 0 => rfl
  | n + 1 => by rw [alone_succ, bump_lamport, Lamport.tick_val, alone_lamport a n]

theorem alone_get (a k : ActorId) : ∀ n, (alone a n).clock.get k = if k = a then n else 0
  | 0 => by
    rw [ite_self]
    exact VectorClock.get_new k
  | n + 1 => by
    rw [alone_succ, bump_get, alone_get a k n, alone_get a a n, if_pos rfl]
    split <;> rfl

/-- While they are in range, in every build. -/
theorem bump_alone [Counter] (h : n + 1 < 2 ^ 64) : (alone a n).bump a = alone a (n + 1) := by
  rw [alone_succ]
  refine bump_of_lt fun x hx => ?_
  simp only [sums, alone_get, alone_lamport, alone_seq, if_pos, Nat.max_zero, List.mem_cons,
    List.not_mem_nil, or_false, or_self] at hx
  omega

theorem alone_lt {m : Nat} (h : m < n) :
    (alone a m).clock.toStringMap.components < (alone a n).clock.toStringMap.components := by
  simp only [VectorClock.components_toStringMap]
  refine Pi.lt_def.mpr ⟨fun k => ?_, a, ?_⟩
  · rw [alone_get, alone_get]
    by_cases hk : k = a
    · simp [hk, h.le]
    · simp [hk]
  · rw [alone_get, alone_get, if_pos rfl, if_pos rfl]
    exact h

end Stamps

section Construction

variable (tags : List Tag) (names : List ActorId)

/-- An event with the tag `t`: an origin where `world` is to emit it, else a computation. -/
def Tag.event (t : Tag) : CausalEvent :=
  if t.actor = "world" ∧ ¬ t.Own tags names then
    { emitEvent "world" t.seq ((Stamps.alone "world" t.seq).envelope "world" t.seq
        (⟨"world", ()⟩ : Addr Unit) ()) with id := t.id }
  else { tick t.actor t.seq with id := t.id }

def ambiguousLog : List CausalEvent := tags.map (·.event tags names)

/-- How many events of the actor the lines have. -/
def tickCount (a : ActorId) : Nat := Nat.findGreatest (Begun tags a) tags.length

/-- An actor that computes `n` times when it starts. -/
def ticking (n : Nat) : Actor (Addr Unit) Unit Unit Unit where
  msgType := ()
  started s := (s, List.replicate n .compute)
  handle s _ := (s, [])

/-- Actors that produce every event they can, and an origin for each line. -/
def tickingSystem : ReplaySystem Unit Unit Unit :=
  names.foldl (fun sys a => sys.spawn a ⟨ticking (tickCount tags a), ()⟩)
    ⟨∅, List.replicate tags.length ("world", ⟨(), ()⟩)⟩

variable {tags names}

theorem Tag.event_tag (t : Tag) : (t.event tags names).tag = t := by
  unfold Tag.event
  split
  · rename_i h
    obtain ⟨id, a, n⟩ := t
    obtain ⟨rfl, -⟩ := h
    rfl
  · rfl

theorem Tag.event_id (t : Tag) : (t.event tags names).id = t.id := congrArg Tag.id t.event_tag

theorem Tag.event_actor (t : Tag) : (t.event tags names).actor = t.actor :=
  congrArg Tag.actor t.event_tag

theorem Tag.event_seq (t : Tag) : (t.event tags names).seq = t.seq := congrArg Tag.seq t.event_tag

theorem Tag.Own.event {t : Tag} (h : t.Own tags names) :
    t.event tags names = tick t.actor t.seq := by
  have hid : (tick t.actor t.seq).id = t.id := h.id.symm
  rw [Tag.event, if_neg (fun hw => hw.2 h), ← hid]

theorem Tag.event_op (t : Tag) : (t.event tags names).op ≠ .recv := by
  unfold Tag.event
  split <;> simp [tick]

theorem Tag.event_vclock (t : Tag) :
    (t.event tags names).vclock = (Stamps.alone t.actor t.seq).clock.toStringMap := by
  unfold Tag.event
  split
  · rename_i h
    rw [h.1]
    rfl
  · rfl

theorem Tag.event_sent {t : Tag} {s : String} (h : (t.event tags names).sent = some s) :
    t.actor = "world" ∧ s = "m" ++ t.seq.repr := by
  unfold Tag.event at h
  split at h
  · rename_i hw
    obtain ⟨-, hs⟩ := CausalEvent.sent_eq_some.mp h
    cases hs
    exact ⟨hw.1, rfl⟩
  · obtain ⟨hop, -⟩ := CausalEvent.sent_eq_some.mp h
    cases hop

theorem begun_tickCount (a : ActorId) : Begun tags a (tickCount tags a) :=
  Nat.findGreatest_spec (P := Begun tags a) (Nat.zero_le _) fun k hk => (Nat.not_lt_zero k hk).elim

theorem Begun.le_tickCount {a : ActorId} {n : Nat} (h : Begun tags a n) : n ≤ tickCount tags a :=
  Nat.le_findGreatest (length_of_consecutive h) h

theorem tickCount_le (tags : List Tag) (a : ActorId) : tickCount tags a ≤ tags.length :=
  Nat.findGreatest_le _

theorem ambiguousLog_tags : (ambiguousLog tags names).map (·.tag) = tags := by
  rw [ambiguousLog, List.map_map]
  exact (List.map_congr_left fun t _ => t.event_tag).trans tags.map_id

theorem mem_ambiguousLog {e : CausalEvent} :
    e ∈ ambiguousLog tags names ↔ ∃ t ∈ tags, t.event tags names = e := List.mem_map

/-- The log is accepted: there is nothing to receive, and every actor counts its own events. -/
theorem ambiguousLog_accepted (names : List ActorId)
    (hcoords : (tags.map fun t => (t.actor, t.seq)).Nodup) :
    Accepted (ambiguousLog tags names) := by
  have hevents : ((ambiguousLog tags names).map fun e => (e.actor, e.seq)).Nodup := by
    have hcomp : ((ambiguousLog tags names).map fun e => (e.actor, e.seq)) =
        (((ambiguousLog tags names).map (·.tag)).map fun t => (t.actor, t.seq)) := by
      rw [List.map_map]
      rfl
    rw [hcomp, ambiguousLog_tags]
    exact hcoords
  refine ⟨⟨hevents, ?_, fun r hr s hs => ?_⟩, fun a ha b hb hab => ?_⟩
  · refine List.pairwise_filterMap.mpr ((List.pairwise_map.mp hevents).imp_of_mem ?_)
    rintro e f he hf hne s hs s' hs' rfl
    obtain ⟨t, -, rfl⟩ := mem_ambiguousLog.mp he
    obtain ⟨u, -, rfl⟩ := mem_ambiguousLog.mp hf
    obtain ⟨ht, hmid⟩ := Tag.event_sent hs
    obtain ⟨hu, hmid'⟩ := Tag.event_sent hs'
    refine hne (Prod.ext ?_ ?_)
    · rw [t.event_actor, u.event_actor, ht, hu]
    · have hmids : mid t.seq = mid u.seq := congrArg some (hmid.symm.trans hmid')
      rw [t.event_seq, u.event_seq, mid_inj.mp hmids]
  · obtain ⟨t, -, rfl⟩ := mem_ambiguousLog.mp hr
    exact absurd (CausalEvent.wanted_eq_some.mp hs).1 t.event_op
  · obtain ⟨t, -, rfl⟩ := mem_ambiguousLog.mp ha
    obtain ⟨u, -, rfl⟩ := mem_ambiguousLog.mp hb
    rcases hab with ⟨hactor, hseq⟩ | ⟨s, -, hwanted⟩
    · rw [t.event_actor, u.event_actor] at hactor
      rw [t.event_seq, u.event_seq] at hseq
      rw [t.event_vclock, u.event_vclock, hactor]
      exact Stamps.alone_lt hseq
    · exact absurd (CausalEvent.wanted_eq_some.mp hwanted).1 u.event_op

end Construction

/-! ### The replay of that log -/

/-- From `s` to `s'` the events `es` were produced, and no more reported of them than that they have
no counterpart. -/
structure Adds (s s' : ReplayState τ α) (es : List CausalEvent) : Prop where
  recorded : s'.recorded = s.recorded
  events : s'.journal.events = s.journal.events ++ es
  produced : ∀ x, x ∈ s.produced ∨ x ∈ es.map (·.id) → x ∈ s'.produced
  quiet : (∀ x ∈ s.divergences, x.detail = .noCounterpart) →
    ∀ x ∈ s'.divergences, x.detail = .noCounterpart

section Adds

variable {s s' s'' : ReplayState τ α} {es es' : List CausalEvent}

theorem Adds.refl (s : ReplayState τ α) : Adds s s [] :=
  ⟨rfl, (List.append_nil _).symm, fun x hx => by simpa using hx, id⟩

theorem Adds.trans (h : Adds s s' es) (h' : Adds s' s'' es') : Adds s s'' (es ++ es') where
  recorded := h'.recorded.trans h.recorded
  events := by rw [h'.events, h.events, List.append_assoc]
  produced := by
    intro x hx
    rw [List.map_append, List.mem_append, ← or_assoc] at hx
    exact h'.produced x (hx.imp_left (h.produced x))
  quiet := fun hs => h'.quiet (h.quiet hs)

/-- Without an index all that `verify` can report of an event is that it has no counterpart. -/
theorem verify_adds (hblind : s.recorded.byId = fun _ => none) (e : CausalEvent) :
    Adds s (s.verify e) [e] where
  recorded := rfl
  events := rfl
  produced := by
    intro x hx
    rw [List.map_singleton, List.mem_singleton] at hx
    exact Finset.mem_insert.mpr hx.symm
  quiet := by
    intro hs x hx
    have hmismatch : s.mismatch e = [⟨e.id, .noCounterpart⟩] := by
      rw [ReplayState.mismatch, hblind]
    rcases List.mem_append.mp hx with hx | hx
    · exact hs x hx
    · rw [hmismatch] at hx
      rw [List.mem_singleton.mp hx]

/-- A handler that only computes. -/
theorem performAll_ticks [Counter] (a : ActorId) : ∀ {n k : Nat} {s : ReplayState τ α},
    k + n < 2 ^ 64 → s.recorded.byId = (fun _ => none) → ∃ s',
      Context.performAll a (List.replicate n (.compute : Action (Addr τ) α)) (.alone a k)
        (⟨s, a⟩ : ReplayDispatch τ α) = (.alone a (k + n), ⟨s', a⟩) ∧
      Adds s s' ((List.range' (k + 1) n).map (tick a))
  | 0, k, s, _, _ => ⟨s, rfl, .refl s⟩
  | n + 1, k, s, hk, hblind => by
    have hverify := verify_adds hblind (tick a (k + 1))
    obtain ⟨s', hs', hadds⟩ := performAll_ticks (n := n) (k := k + 1) a (by omega)
      (by rw [hverify.recorded, hblind])
    refine ⟨s', ?_, hverify.trans hadds⟩
    have hstep : Context.perform a (.compute : Action (Addr τ) α) (.alone a k)
        (⟨s, a⟩ : ReplayDispatch τ α) = (.alone a (k + 1), ⟨s.verify (tick a (k + 1)), a⟩) := by
      rw [Context.perform, Context.compute, Stamps.bump_alone (by omega), tick]
      conv_lhs => rw [Stamps.alone_seq]
      rfl
    rw [List.replicate_succ, Context.performAll, hstep, hs']
    congr 2
    omega

theorem recvLoop_still [Counter] [DecidableEq τ] : ∀ {evs : List CausalEvent} {d : Driver τ α σ},
    (∀ ev ∈ evs, ev.op ≠ .recv) → Driver.recvLoop evs d = .ok d
  | [], _, _ => rfl
  | ev :: evs, d, h => by
    have hstep : d.recvStep ev = .ok d := by
      rw [Driver.recvStep, if_pos (h ev (List.mem_cons_self ..))]
    rw [Driver.recvLoop, hstep]
    exact recvLoop_still fun e he => h e (List.mem_cons_of_mem _ he)

/-- Every world emit is seeded where its msg_id can be parsed and there are origins enough. -/
theorem seedOrigins_adds (origins : List (ActorId × Boxed τ α)) :
    ∀ (wes : List CausalEvent) {k : Nat} {s : ReplayState τ α},
      (∀ we ∈ wes, we.parsedMid ≠ none) → k + wes.length ≤ origins.length →
      Adds s (ReplayState.seedOrigins origins k wes s) [] ∧
        ∀ we ∈ wes, we.id ∈ (ReplayState.seedOrigins origins k wes s).produced
  | [], _, s, _, _ => ⟨.refl s, fun we hwe => by cases hwe⟩
  | we :: wes, k, s, hparsed, hlen => by
    rw [List.length_cons] at hlen
    obtain ⟨m, hm⟩ := Option.ne_none_iff_exists'.mp (hparsed we (List.mem_cons_self ..))
    have hk : k < origins.length := by omega
    have ho : origins[k]? = some origins[k] := List.getElem?_eq_getElem hk
    have hseed : s.seedOrigin we origins[k]? =
        s.seed we (ReplayState.originEnvelope we m origins[k]) := by
      rw [ReplayState.seedOrigin, hm, ho]
    have htail : ∀ e ∈ wes, e.parsedMid ≠ none := fun e he =>
      hparsed e (List.mem_cons_of_mem _ he)
    have hle : k + 1 + wes.length ≤ origins.length := by omega
    obtain ⟨hadds, hall⟩ :=
      seedOrigins_adds origins wes (s := s.seedOrigin we origins[k]?) htail hle
    have hfirst : Adds s (s.seedOrigin we origins[k]?) [] := by
      rw [hseed]
      refine ⟨rfl, (List.append_nil _).symm, fun x hx => ?_, id⟩
      exact Finset.mem_insert_of_mem (by simpa using hx)
    refine ⟨hfirst.trans hadds, fun e he => ?_⟩
    rcases List.mem_cons.mp he with rfl | he
    · refine hadds.produced _ (.inl ?_)
      rw [hseed]
      exact Finset.mem_insert_self ..
    · exact hall e he

end Adds

section Construction

variable {tags : List Tag} {names : List ActorId}

theorem tickingSystem_origins (tags : List Tag) (names : List ActorId) :
    (tickingSystem tags names).origins = List.replicate tags.length ("world", ⟨(), ()⟩) := by
  have h : ∀ (names : List ActorId) (sys : ReplaySystem Unit Unit Unit),
      (names.foldl (fun sys a => sys.spawn a ⟨ticking (tickCount tags a), ()⟩) sys).origins =
        sys.origins := by
    intro names
    induction names with
    | nil => exact fun _ => rfl
    | cons a names ih => exact fun sys => ih _
  exact h names _

theorem tickingSystem_actors (tags : List Tag) (names : List ActorId) (a : ActorId) :
    (tickingSystem tags names).actors[a]? =
      if a ∈ names then some ⟨ticking (tickCount tags a), ()⟩ else none := by
  have h : ∀ (names : List ActorId) (sys : ReplaySystem Unit Unit Unit),
      (names.foldl (fun sys a => sys.spawn a ⟨ticking (tickCount tags a), ()⟩) sys).actors[a]? =
        if a ∈ names then some ⟨ticking (tickCount tags a), ()⟩ else sys.actors[a]? := by
    intro names
    induction names with
    | nil => intro sys; simp
    | cons b names ih =>
      intro sys
      rw [List.foldl_cons, ih]
      by_cases ha : a ∈ names
      · simp [ha]
      · by_cases hb : a = b
        · subst hb
          simp [ha, ReplaySystem.spawn]
        · simp [ha, hb, ReplaySystem.spawn, Std.ExtTreeMap.getElem?_insert, Ne.symm hb]
  rw [tickingSystem, h]
  simp

theorem mem_tickingSystem {a : ActorId} : a ∈ (tickingSystem tags names).actors ↔ a ∈ names := by
  rw [← Std.ExtTreeMap.isSome_getElem?_iff_mem, tickingSystem_actors]
  split <;> simp [*]

/-- The `started` pass over actors that have not run yet. -/
theorem startAll_ticks [Counter] (hlen : tags.length < 2 ^ 64) :
    ∀ {rest : List ActorId} {d : Driver Unit Unit Unit}, rest.Nodup →
      (∀ a ∈ rest, d.actors[a]? = some ⟨ticking (tickCount tags a), ()⟩ ∧ d.clocks a = .zero) →
      d.state.recorded.byId = (fun _ => none) → ∃ d', Driver.startAll rest d = .ok d' ∧
        Adds d.state d'.state
          (rest.flatMap fun a => (List.range' 1 (tickCount tags a)).map (tick a))
  | [], d, _, _, _ => ⟨d, rfl, .refl _⟩
  | a :: rest, d, hnd, hfresh, hblind => by
    obtain ⟨hnot, hnd⟩ := List.nodup_cons.mp hnd
    obtain ⟨hactor, hclock⟩ := hfresh a (List.mem_cons_self ..)
    have hcount : 0 + tickCount tags a < 2 ^ 64 := by
      have := tickCount_le tags a
      omega
    obtain ⟨s', hs', hadds⟩ := performAll_ticks a hcount hblind
    rw [Nat.zero_add] at hs'
    have hdrive : d.drive a none = .ok ⟨d.actors.insert a ⟨ticking (tickCount tags a), ()⟩,
        Function.update d.clocks a (.alone a (tickCount tags a)), s'⟩ := by
      simp only [Driver.drive, hactor, Driver.invoke, hclock]
      have hs' : Context.performAll a ((ticking (tickCount tags a)).started ()).2 Stamps.zero
          (⟨d.state, a⟩ : ReplayDispatch Unit Unit) = (.alone a (tickCount tags a), ⟨s', a⟩) := hs'
      rw [hs']
    have hrest : ∀ b ∈ rest,
        (d.actors.insert a ⟨ticking (tickCount tags a), ()⟩)[b]? =
          some ⟨ticking (tickCount tags b), ()⟩ ∧
        Function.update d.clocks a (.alone a (tickCount tags a)) b = .zero := by
      intro b hb
      have hne : ¬ a = b := fun heq => hnot (heq ▸ hb)
      obtain ⟨hactor', hclock'⟩ := hfresh b (List.mem_cons_of_mem _ hb)
      refine ⟨?_, ?_⟩
      · simpa [Std.ExtTreeMap.getElem?_insert, hne] using hactor'
      · rw [Function.update_of_ne (Ne.symm hne)]
        exact hclock'
    obtain ⟨d', hd', hadds'⟩ := startAll_ticks hlen hnd (d := ⟨d.actors.insert a
        ⟨ticking (tickCount tags a), ()⟩,
        Function.update d.clocks a (.alone a (tickCount tags a)), s'⟩) hrest
      (by rw [hadds.recorded, hblind])
    refine ⟨d', ?_, hadds.trans hadds'⟩
    rw [Driver.startAll, hdrive]
    exact hd'

/-- A `world` emit of that log has a msg_id that can be parsed. -/
theorem ambiguousLog_parsed (hseq : ∀ t ∈ tags, t.seq < 2 ^ 64) {we : CausalEvent}
    (hwe : we ∈ (RecordedIndex.build (ambiguousLog tags names)).emitsByActor "world") :
    we.parsedMid ≠ none := by
  obtain ⟨hlog, hop, -⟩ := RecordedIndex.mem_build_emits.mp hwe
  obtain ⟨t, ht, rfl⟩ := mem_ambiguousLog.mp hlog
  have hmid : (t.event tags names).msgId = mid t.seq := by
    unfold Tag.event at hop ⊢
    split at hop
    · rename_i h
      rw [if_pos h]
      rfl
    · cases hop
  rw [CausalEvent.parsedMid_mid hmid (hseq t ht)]
  exact Option.some_ne_none _

/-- The replay of the log does what the lines say. -/
theorem reenact_ambiguousLog [Counter] (hlen : tags.length < 2 ^ 64)
    (hseq : ∀ t ∈ tags, t.seq < 2 ^ 64) (h : Ambiguous tags names) {timeline : List CausalEvent}
    (hp : timeline.Perm (ambiguousLog tags names)) :
    ∃ d₀, (tickingSystem tags names).reenact (ambiguousLog tags names) timeline = .ok d₀ ∧
      Sound (ambiguousLog tags names) d₀ ∧
      ∀ t : Tag, t.Own tags names → t.event tags names ∈ d₀.state.journal.events := by
  have henough : 0 + ((RecordedIndex.build (ambiguousLog tags names)).emitsByActor "world").length ≤
      (tickingSystem tags names).origins.length := by
    rw [RecordedIndex.build_emits, List.length_insertionSort, tickingSystem_origins,
      List.length_replicate, Nat.zero_add]
    exact (List.length_filter_le _ _).trans_eq (by rw [ambiguousLog, List.length_map])
  obtain ⟨hseeds, hworld⟩ := seedOrigins_adds (tickingSystem tags names).origins
    ((RecordedIndex.build (ambiguousLog tags names)).emitsByActor "world") (k := 0)
    (s := (ReplayState.init (ambiguousLog tags names)).blind [])
    (fun we hwe => ambiguousLog_parsed hseq hwe) henough
  have hfresh : ∀ a ∈ (tickingSystem tags names).actors.keys,
      (tickingSystem tags names).actors[a]? = some ⟨ticking (tickCount tags a), ()⟩ ∧
        (fun _ : ActorId => Stamps.zero) a = .zero := fun a ha =>
    ⟨by rw [tickingSystem_actors, if_pos (mem_tickingSystem.mp (Std.ExtTreeMap.mem_keys.mp ha))],
      rfl⟩
  obtain ⟨d₀, hd₀, hadds⟩ := startAll_ticks hlen (d := ⟨_, _, _⟩)
    (Std.ExtTreeMap.nodup_keys (t := (tickingSystem tags names).actors)) hfresh
    (by rw [hseeds.recorded]; rfl)
  have hall := hseeds.trans hadds
  have hevents : d₀.state.journal.events = (tickingSystem tags names).actors.keys.flatMap
      fun a => (List.range' 1 (tickCount tags a)).map (tick a) := hall.events
  have hown : ∀ t : Tag, t.Own tags names → t.event tags names ∈ d₀.state.journal.events := by
    intro t ht
    rw [hevents, ht.event]
    have hle := ht.begun.le_tickCount
    have hpos := ht.pos
    exact List.mem_flatMap.mpr ⟨_, Std.ExtTreeMap.mem_keys.mpr (mem_tickingSystem.mpr ht.rebuilt),
      List.mem_map_of_mem (List.mem_range'_1.mpr (by omega))⟩
  refine ⟨d₀, ?_, ⟨?_, ?_, ?_⟩, hown⟩
  · refine Except.bind_eq_ok.mpr ⟨d₀, hd₀, recvLoop_still fun ev hev => ?_⟩
    obtain ⟨t, -, rfl⟩ := mem_ambiguousLog.mp (hp.mem_iff.mp hev)
    exact t.event_op
  · exact hall.quiet fun x hx => by cases hx
  · intro e he
    rw [hevents] at he
    obtain ⟨a, ha, hmem⟩ := List.mem_flatMap.mp he
    obtain ⟨n, hn, rfl⟩ := List.mem_map.mp hmem
    rw [List.mem_range'_1] at hn
    have hbegun : Begun tags a n := (begun_tickCount a).mono (by omega)
    have hself : (Tag.of a n).Own tags names :=
      ⟨mem_tickingSystem.mp (Std.ExtTreeMap.mem_keys.mp ha), by show 0 < n; omega, rfl, hbegun⟩
    exact mem_ambiguousLog.mpr ⟨_, hself.mem, hself.event⟩
  · intro e he
    obtain ⟨t, ht, rfl⟩ := mem_ambiguousLog.mp he
    obtain ⟨u, hu, hid, hcase⟩ := h.covered t ht
    have heq : (u.event tags names).id = t.id := u.event_id.trans hid
    rw [t.event_id, ← heq]
    by_cases hw : u.actor = "world" ∧ ¬ u.Own tags names
    · refine hadds.produced _ (.inl (hworld _ (RecordedIndex.mem_build_emits.mpr
        ⟨mem_ambiguousLog.mpr ⟨u, hu, rfl⟩, ?_, u.event_actor.trans hw.1⟩)))
      rw [Tag.event, if_pos hw]
      rfl
    · have hu' : u.Own tags names := by
        rcases hcase with hu' | hactor
        · exact hu'
        · exact not_not.mp fun hnot => hw ⟨hactor, hnot⟩
      exact hadds.produced _ (.inr (List.mem_map_of_mem (hevents ▸ hown u hu')))

end Construction

/-! ## When the order of the lines matters -/

/-- An actor that computes once when it starts. -/
def ticker : Actor (Addr Unit) Unit Nat Unit where
  msgType := ()
  started s := (s, [.compute])
  handle s _ := (s, [])

def tickerSystem : ReplaySystem Unit Nat Unit := ReplaySystem.new.spawn "a" ⟨ticker, ()⟩

/-- An event of `b`, which is not rebuilt, under the id of the one event of `a`. -/
def aliasedLog : List CausalEvent :=
  let a := Stamps.zero.bump "a"
  let b := Stamps.zero.bump "b"
  [{ computeEvent "b" b.seq b.clock b.lamport.val with id := "a:1" },
    computeEvent "a" a.seq a.clock a.lamport.val]

/-- The same two events, each under its own id. -/
def distinctLog : List CausalEvent :=
  let a := Stamps.zero.bump "a"
  let b := Stamps.zero.bump "b"
  [computeEvent "b" b.seq b.clock b.lamport.val, computeEvent "a" a.seq a.clock a.lamport.val]

end Lichtung
