import Mathlib

/-!
# Vector-clock histories

Events of several lines recorded one after another.  An event is stamped from the clock its line
has reached and, where it receives a message, from the clock of the event that sent it.

Principal results: `History.coords_nodup` (line and sequence number determine an event),
`History.precedes_iff` (happens-before is the product order of the clocks).
-/

namespace Lichtung.CausalHistory

/-- How events are read: their line, position and clock, and which event sent what they receive. -/
structure Recording (E L : Type*) where
  line : E → L
  seq : E → Nat
  clock : E → L → Nat
  sent : E → E → Prop

variable {E L : Type*} [DecidableEq L]

/-- Advance the own component. -/
def tick (ℓ : L) (f : L → Nat) : L → Nat := Function.update f ℓ (f ℓ + 1)

theorem le_tick (ℓ : L) (f : L → Nat) : f ≤ tick ℓ f :=
  le_update_self_iff.mpr (Nat.le_succ _)

theorem le_tick_max (ℓ : L) (f g : L → Nat) : f ≤ tick ℓ fun k => max (f k) (g k) :=
  le_trans (fun k => le_max_left (f k) (g k)) (le_tick ℓ _)

namespace Recording

variable (R : Recording E L)

/-- The number of events of a line. -/
def count (log : List E) (ℓ : L) : Nat := log.countP fun e => R.line e = ℓ

/-- An earlier event of the line, or the sending of a received message. -/
def Direct (a b : E) : Prop := R.line a = R.line b ∧ R.seq a < R.seq b ∨ R.sent a b

/-- Happens-before among the events of a log. -/
def Precedes (log : List E) : E → E → Prop :=
  Relation.TransGen fun a b => a ∈ log ∧ b ∈ log ∧ R.Direct a b

/-- The logs that can be recorded, with the clock each line has reached. -/
inductive History : List E → (L → L → Nat) → Prop where
  | nil : History [] fun _ _ => 0
  /-- An event that receives nothing. -/
  | own {log : List E} {cur : L → L → Nat} {e : E} (h : History log cur)
      (hsent : ∀ m, ¬ R.sent m e) (hseq : R.seq e = R.count log (R.line e) + 1)
      (hclock : R.clock e = tick (R.line e) (cur (R.line e))) :
      History (log ++ [e]) (Function.update cur (R.line e) (R.clock e))
  /-- An event that receives what `m` sent. -/
  | recv {log : List E} {cur : L → L → Nat} {e m : E} (h : History log cur) (hm : m ∈ log)
      (hsent : R.sent m e) (hseq : R.seq e = R.count log (R.line e) + 1)
      (hclock : R.clock e = tick (R.line e) fun k => max (cur (R.line e) k) (R.clock m k)) :
      History (log ++ [e]) (Function.update cur (R.line e) (R.clock e))

variable {R} {log : List E} {cur : L → L → Nat}

theorem count_snoc (e : E) (ℓ : L) :
    R.count (log ++ [e]) ℓ = R.count log ℓ + if R.line e = ℓ then 1 else 0 := by
  simp [count, List.countP_append, List.countP_cons]

theorem count_le_snoc (e : E) (ℓ : L) : R.count log ℓ ≤ R.count (log ++ [e]) ℓ := by
  rw [count_snoc]; exact Nat.le_add_right _ _

omit [DecidableEq L] in
theorem Precedes.mono {log' : List E} {a b : E} (h : R.Precedes log a b) (hsub : log ⊆ log') :
    R.Precedes log' a b :=
  Relation.TransGen.mono (fun _ _ h => ⟨hsub h.1, hsub h.2.1, h.2.2⟩) _ _ h

namespace History

/-! ## What the clocks count -/

/-- The own component counts the line; no one knows more of a line than it has events. -/
structure Counts (R : Recording E L) (log : List E) (cur : L → L → Nat) : Prop where
  cur_own : ∀ ℓ, cur ℓ ℓ = R.count log ℓ
  cur_le : ∀ ℓ k, cur ℓ k ≤ R.count log k
  clock_own : ∀ e ∈ log, R.clock e (R.line e) = R.seq e
  clock_le : ∀ e ∈ log, ∀ k, R.clock e k ≤ R.count log k

/-- A new event, stamped from `f`. -/
theorem Counts.snoc (h : Counts R log cur) {e : E} {f : L → Nat}
    (hown : f (R.line e) = R.count log (R.line e)) (hle : ∀ k, f k ≤ R.count log k)
    (hseq : R.seq e = R.count log (R.line e) + 1) (hclock : R.clock e = tick (R.line e) f) :
    Counts R (log ++ [e]) (Function.update cur (R.line e) (R.clock e)) := by
  have hnew : ∀ k, R.clock e k ≤ R.count (log ++ [e]) k := by
    intro k
    rw [hclock, tick, count_snoc]
    by_cases hk : k = R.line e
    · subst hk; rw [Function.update_self, if_pos rfl, hown]
    · rw [Function.update_of_ne hk, if_neg (Ne.symm hk)]; exact hle k
  have hnew' : R.clock e (R.line e) = R.count log (R.line e) + 1 := by
    rw [hclock, tick, Function.update_self, hown]
  refine ⟨fun ℓ => ?_, fun ℓ k => ?_, fun a ha => ?_, fun a ha k => ?_⟩
  · rw [count_snoc]
    by_cases hℓ : ℓ = R.line e
    · subst hℓ; rw [Function.update_self, if_pos rfl, hnew']
    · rw [Function.update_of_ne hℓ, if_neg (Ne.symm hℓ)]; exact h.cur_own ℓ
  · by_cases hℓ : ℓ = R.line e
    · subst hℓ; rw [Function.update_self]; exact hnew k
    · rw [Function.update_of_ne hℓ]; exact (h.cur_le ℓ k).trans (count_le_snoc e k)
  · rcases List.mem_append.mp ha with ha | ha
    · exact h.clock_own a ha
    · obtain rfl := List.mem_singleton.mp ha
      rw [hnew', hseq]
  · rcases List.mem_append.mp ha with ha | ha
    · exact (h.clock_le a ha k).trans (count_le_snoc e k)
    · obtain rfl := List.mem_singleton.mp ha
      exact hnew k

theorem counts (h : History R log cur) : Counts R log cur := by
  induction h with
  | nil =>
    refine ⟨fun _ => rfl, fun _ _ => Nat.zero_le _, ?_, ?_⟩ <;>
      exact fun e he => by cases he
  | own h _ hseq hclock ih => exact ih.snoc (ih.cur_own _) (ih.cur_le _) hseq hclock
  | recv h hm _ hseq hclock ih =>
    refine ih.snoc ?_ (fun k => max_le (ih.cur_le _ k) (ih.clock_le _ hm k)) hseq hclock
    -- the sender knows no more of this line than the line itself
    rw [ih.cur_own]
    exact max_eq_left (ih.clock_le _ hm _)

/-- The clock of a line is 0 or that of one of its events. -/
theorem cur_cases (h : History R log cur) (ℓ : L) :
    cur ℓ = (fun _ => 0) ∨ ∃ p ∈ log, R.line p = ℓ ∧ R.clock p = cur ℓ := by
  have hsnoc : ∀ {log : List E} {cur : L → L → Nat} {e : E},
      (cur ℓ = (fun _ => 0) ∨ ∃ p ∈ log, R.line p = ℓ ∧ R.clock p = cur ℓ) →
        Function.update cur (R.line e) (R.clock e) ℓ = (fun _ => 0) ∨ ∃ p ∈ log ++ [e],
          R.line p = ℓ ∧ R.clock p = Function.update cur (R.line e) (R.clock e) ℓ := by
    intro log cur e ih
    by_cases hℓ : ℓ = R.line e
    · exact .inr ⟨e, by simp, hℓ.symm, by subst hℓ; rw [Function.update_self]⟩
    · rw [Function.update_of_ne hℓ]
      exact ih.imp_right fun ⟨p, hp, hp'⟩ => ⟨p, List.mem_append_left _ hp, hp'⟩
  induction h with
  | nil => exact .inl rfl
  | own _ _ _ _ ih | recv _ _ _ _ _ ih => exact hsnoc ih

/-- A line without events has not moved. -/
theorem cur_eq_zero (h : History R log cur) {ℓ : L} (h0 : R.count log ℓ = 0) :
    cur ℓ = fun _ => 0 := by
  rcases h.cur_cases ℓ with h | ⟨p, hp, hline, -⟩
  · exact h
  · have := List.countP_eq_zero.mp h0 p hp
    simp [hline] at this

/-! ## Program order -/

/-- Events of one line are ordered by their sequence numbers, their clocks alike. -/
def Ordered (R : Recording E L) (a b : E) : Prop :=
  R.line a = R.line b → R.seq a < R.seq b ∧ R.clock a ≤ R.clock b ∨
    R.seq b < R.seq a ∧ R.clock b ≤ R.clock a

theorem seq_le_count (h : History R log cur) {e : E} (he : e ∈ log) :
    R.seq e ≤ R.count log (R.line e) :=
  h.counts.clock_own e he ▸ h.counts.clock_le e he _

theorem clock_le_cur (h : History R log cur) : ∀ e ∈ log, R.clock e ≤ cur (R.line e) := by
  have hsnoc : ∀ {log : List E} {cur : L → L → Nat} {e : E}, cur (R.line e) ≤ R.clock e →
      (∀ a ∈ log, R.clock a ≤ cur (R.line a)) →
        ∀ a ∈ log ++ [e], R.clock a ≤ Function.update cur (R.line e) (R.clock e) (R.line a) := by
    intro log cur e he ih a ha
    rcases List.mem_append.mp ha with ha | ha
    · by_cases hline : R.line a = R.line e
      · rw [hline, Function.update_self]
        exact (hline ▸ ih a ha).trans he
      · rw [Function.update_of_ne hline]
        exact ih a ha
    · obtain rfl := List.mem_singleton.mp ha
      rw [Function.update_self]
  induction h with
  | nil => exact fun e he => by cases he
  | own _ _ _ hclock ih => exact hsnoc (hclock ▸ le_tick _ _) ih
  | recv _ _ _ _ hclock ih => exact hsnoc (hclock ▸ le_tick_max _ _ _) ih

theorem ordered (h : History R log cur) : log.Pairwise (Ordered R) := by
  have hsnoc : ∀ {log : List E} {cur : L → L → Nat} {e : E}, History R log cur →
      R.seq e = R.count log (R.line e) + 1 → cur (R.line e) ≤ R.clock e →
        log.Pairwise (Ordered R) → (log ++ [e]).Pairwise (Ordered R) := by
    intro log cur e h hseq he ih
    refine List.pairwise_append.mpr ⟨ih, List.pairwise_singleton .., fun a ha b hb hline => ?_⟩
    obtain rfl := List.mem_singleton.mp hb
    refine .inl ⟨?_, (h.clock_le_cur a ha).trans (hline ▸ he)⟩
    have := h.seq_le_count ha
    rw [hline] at this
    omega
  induction h with
  | nil => exact .nil
  | own h _ hseq hclock ih => exact hsnoc h hseq (hclock ▸ le_tick _ _) ih
  | recv h _ _ hseq hclock ih => exact hsnoc h hseq (hclock ▸ le_tick_max _ _ _) ih

instance : Std.Symm (Ordered R) := ⟨fun _ _ h hline => (h hline.symm).symm⟩

/-- **Line and sequence number determine an event.** -/
theorem coords_nodup (h : History R log cur) : (log.map fun e => (R.line e, R.seq e)).Nodup := by
  refine List.pairwise_map.mpr (h.ordered.imp fun hab heq => ?_)
  obtain ⟨hline, hseq⟩ := Prod.mk.inj heq
  rcases hab hline with h | h
  · exact absurd hseq (Nat.ne_of_lt h.1)
  · exact absurd hseq.symm (Nat.ne_of_lt h.1)

/-- Clocks grow along a line. -/
theorem clock_lt_of_line (h : History R log cur) {a b : E} (ha : a ∈ log) (hb : b ∈ log)
    (hline : R.line a = R.line b) (hseq : R.seq a < R.seq b) : R.clock a < R.clock b := by
  have hne : a ≠ b := by rintro rfl; exact Nat.lt_irrefl _ hseq
  rcases h.ordered.forall ha hb hne hline with hab | ⟨hba, -⟩
  · refine lt_of_le_not_ge hab.2 fun hle => ?_
    have hown := hle (R.line a)
    rw [h.counts.clock_own a ha, hline, h.counts.clock_own b hb] at hown
    exact absurd hseq (Nat.not_lt.mpr hown)
  · omega

/-! ## Messages -/

/-- Every event receives nothing, or was stamped from an earlier event that sent to it. -/
theorem sender (h : History R log cur) : ∀ b ∈ log, (∀ m, ¬ R.sent m b) ∨
    ∃ m ∈ log, R.sent m b ∧ R.clock m < R.clock b := by
  induction h with
  | nil => exact fun b hb => by cases hb
  | own _ hsent _ _ ih =>
    intro b hb
    rcases List.mem_append.mp hb with hb | hb
    · exact (ih b hb).imp_right fun ⟨m, hm, hmb⟩ => ⟨m, List.mem_append_left _ hm, hmb⟩
    · obtain rfl := List.mem_singleton.mp hb
      exact .inl hsent
  | @recv log cur e m h hm hsent hseq hclock ih =>
    intro b hb
    rcases List.mem_append.mp hb with hb | hb
    · exact (ih b hb).imp_right fun ⟨m, hm, hmb⟩ => ⟨m, List.mem_append_left _ hm, hmb⟩
    · obtain rfl := List.mem_singleton.mp hb
      refine .inr ⟨m, List.mem_append_left _ hm, hsent, ?_⟩
      rw [hclock]
      refine lt_of_le_not_ge (le_trans (fun k => le_max_right _ _) (le_tick _ _)) fun hle => ?_
      have h1 : tick (R.line b) _ (R.line b) ≤ R.clock m (R.line b) := hle (R.line b)
      have h2 := h.counts.clock_le m hm (R.line b)
      rw [tick, Function.update_self, h.counts.cur_own, max_eq_left h2] at h1
      omega

/-- The components an event was stamped from are 0 or known from a direct predecessor. -/
def From (R : Recording E L) (log : List E) (e : E) (f : L → Nat) : Prop :=
  ∀ k, f k = 0 ∨ ∃ p ∈ log, R.Direct p e ∧ f k = R.clock p k

theorem from_cur (h : History R log cur) {e : E} (hseq : R.seq e = R.count log (R.line e) + 1) :
    From R log e (cur (R.line e)) := by
  intro k
  rcases h.cur_cases (R.line e) with h0 | ⟨p, hp, hline, hcur⟩
  · exact .inl (congrFun h0 k)
  · have := h.seq_le_count hp
    rw [hline] at this
    exact .inr ⟨p, hp, .inl ⟨hline, by omega⟩, by rw [hcur]⟩

/-- What a new event knows of another line comes from its direct predecessors. -/
theorem precedes_of_le_snoc (h : History R log cur) {e : E} {f : L → Nat}
    (hseq : R.seq e = R.count log (R.line e) + 1) (hclock : R.clock e = tick (R.line e) f)
    (hf : From R log e f) (hpos : ∀ a ∈ log, 0 < R.seq a)
    (ih : ∀ a ∈ log, ∀ b ∈ log, R.seq a ≤ R.clock b (R.line a) → a = b ∨ R.Precedes log a b) :
    ∀ a ∈ log ++ [e], ∀ b ∈ log ++ [e], R.seq a ≤ R.clock b (R.line a) →
      a = b ∨ R.Precedes (log ++ [e]) a b := by
  intro a ha b hb hle
  have hsub : log ⊆ log ++ [e] := fun _ h => List.mem_append_left _ h
  have he : e ∈ log ++ [e] := by simp
  rcases List.mem_append.mp ha with ha' | ha'
  · rcases List.mem_append.mp hb with hb' | hb'
    · exact (ih a ha' b hb' hle).imp_right fun h => h.mono hsub
    · obtain rfl := List.mem_singleton.mp hb'
      refine .inr ?_
      by_cases hline : R.line a = R.line b
      · have := h.seq_le_count ha'
        rw [hline] at this
        exact .single ⟨ha, he, .inl ⟨hline, by omega⟩⟩
      · rw [hclock, tick, Function.update_of_ne hline] at hle
        rcases hf (R.line a) with h0 | ⟨p, hp, hdirect, hfp⟩
        · have := hpos a ha'
          omega
        · have hlast : R.Precedes (log ++ [b]) p b := .single ⟨hsub hp, he, hdirect⟩
          rcases ih a ha' p hp (hfp ▸ hle) with rfl | hap
          · exact hlast
          · exact (hap.mono hsub).trans hlast
  · obtain rfl := List.mem_singleton.mp ha'
    rcases List.mem_append.mp hb with hb' | hb'
    · -- an old event does not know the new one
      have := h.counts.clock_le b hb' (R.line a)
      omega
    · exact .inl (List.mem_singleton.mp hb').symm

theorem seq_pos (h : History R log cur) : ∀ e ∈ log, 0 < R.seq e := by
  have hsnoc : ∀ {log : List E} {e : E} {n : Nat}, R.seq e = n + 1 →
      (∀ a ∈ log, 0 < R.seq a) → ∀ a ∈ log ++ [e], 0 < R.seq a := by
    intro log e n hseq ih a ha
    rcases List.mem_append.mp ha with ha | ha
    · exact ih a ha
    · obtain rfl := List.mem_singleton.mp ha
      omega
  induction h with
  | nil => exact fun e he => by cases he
  | own _ _ hseq _ ih | recv _ _ _ hseq _ ih => exact hsnoc hseq ih

/-- An event whose own count another event has reached is that event or happens before it. -/
theorem precedes_of_le (h : History R log cur) : ∀ a ∈ log, ∀ b ∈ log,
    R.seq a ≤ R.clock b (R.line a) → a = b ∨ R.Precedes log a b := by
  induction h with
  | nil => exact fun a ha => by cases ha
  | own h _ hseq hclock ih =>
    exact h.precedes_of_le_snoc hseq hclock (h.from_cur hseq) h.seq_pos ih
  | @recv log cur e m h hm hsent hseq hclock ih =>
    refine h.precedes_of_le_snoc hseq hclock (fun k => ?_) h.seq_pos ih
    rcases max_choice (cur (R.line e) k) (R.clock m k) with hmax | hmax
    · rw [hmax]; exact h.from_cur hseq k
    · exact .inr ⟨_, hm, .inr hsent, hmax⟩

/-! ## The embedding -/

/-- Clocks grow along happens-before, where no two events sent what one receives. -/
theorem clock_lt_of_precedes (h : History R log cur)
    (huniq : ∀ a ∈ log, ∀ a' ∈ log, ∀ b, R.sent a b → R.sent a' b → a = a') {a b : E}
    (hab : R.Precedes log a b) : R.clock a < R.clock b := by
  have hdirect : ∀ a b, a ∈ log ∧ b ∈ log ∧ R.Direct a b → R.clock a < R.clock b := by
    rintro a b ⟨ha, hb, ⟨hline, hseq⟩ | hsent⟩
    · exact h.clock_lt_of_line ha hb hline hseq
    · rcases h.sender b hb with hno | ⟨m, hm, hmb, hlt⟩
      · exact absurd hsent (hno a)
      · rwa [huniq a ha m hm b hsent hmb]
  induction hab with
  | single h => exact hdirect _ _ h
  | tail _ h ih => exact ih.trans (hdirect _ _ h)

/-- **Happens-before is the product order of the clocks.** -/
theorem precedes_iff (h : History R log cur)
    (huniq : ∀ a ∈ log, ∀ a' ∈ log, ∀ b, R.sent a b → R.sent a' b → a = a') {a b : E}
    (ha : a ∈ log) (hb : b ∈ log) (hne : a ≠ b) :
    R.Precedes log a b ↔ R.clock a < R.clock b := by
  refine ⟨h.clock_lt_of_precedes huniq, fun hlt => ?_⟩
  refine (h.precedes_of_le a ha b hb ?_).resolve_left hne
  rw [← h.counts.clock_own a ha]
  exact hlt.le _

end History

end Recording

end Lichtung.CausalHistory
