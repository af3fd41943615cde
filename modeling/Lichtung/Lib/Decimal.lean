import Mathlib

/-!
# Decimal numerals

Lists of digit characters and the numbers they denote.  A number is denoted by many numerals, which
differ in their leading zeros only.

Principal results: `value_eq_iff` (two numerals denote one number exactly when they agree after
their leading zeros) and `value_repr` (a number's own numeral denotes it).
-/

namespace Lichtung.Decimal

/-- The number a list of digits denotes. -/
def value (ds : List Char) : Nat := Nat.ofDigitChars 10 ds 0

/-- The digits after the leading zeros. -/
def significant (ds : List Char) : List Char := ds.dropWhile (· = '0')

def digit (c : Char) : Nat := c.toNat - '0'.toNat

theorem digit_lt {c : Char} (h : c.isDigit = true) : digit c < 10 := by
  simp only [Char.isDigit, Bool.and_eq_true, decide_eq_true_eq] at h
  have h1 : c.toNat ≤ 57 := h.2
  simp only [digit, Char.reduceToNat]
  omega

theorem digit_inj {c d : Char} (hc : c.isDigit = true) (hd : d.isDigit = true)
    (h : digit c = digit d) : c = d := by
  simp only [Char.isDigit, Bool.and_eq_true, decide_eq_true_eq] at hc hd
  have hc0 : 48 ≤ c.toNat := hc.1
  have hd0 : 48 ≤ d.toNat := hd.1
  simp only [digit, Char.reduceToNat] at h
  exact Char.toNat_inj.mp (by omega)

@[simp] theorem value_nil : value [] = 0 := Nat.ofDigitChars_nil

theorem value_cons (c : Char) (cs : List Char) :
    value (c :: cs) = 10 ^ cs.length * digit c + value cs := by
  rw [value, Nat.ofDigitChars_cons, Nat.ofDigitChars_eq_ofDigitChars_zero, Nat.mul_zero,
    Nat.zero_add]
  rfl

theorem value_lt : ∀ {ds : List Char}, (∀ c ∈ ds, c.isDigit = true) → value ds < 10 ^ ds.length
  | [], _ => by simp
  | c :: cs, h => by
    have hc := digit_lt (h c (List.mem_cons_self ..))
    have hcs := value_lt fun d hd => h d (List.mem_cons_of_mem c hd)
    calc value (c :: cs) = 10 ^ cs.length * digit c + value cs := value_cons c cs
      _ < 10 ^ cs.length * digit c + 10 ^ cs.length := Nat.add_lt_add_left hcs _
      _ = 10 ^ cs.length * (digit c + 1) := (Nat.mul_succ ..).symm
      _ ≤ 10 ^ cs.length * 10 := Nat.mul_le_mul_left _ hc

/-- Numerals of one length are determined by their value. -/
theorem eq_of_length : ∀ {ds es : List Char}, (∀ c ∈ ds, c.isDigit = true) →
    (∀ c ∈ es, c.isDigit = true) → ds.length = es.length → value ds = value es → ds = es
  | [], [], _, _, _, _ => rfl
  | c :: cs, d :: ds, hc, hd, hlen, h => by
    have hlen : cs.length = ds.length := Nat.succ.inj hlen
    have hcs := value_lt fun x hx => hc x (List.mem_cons_of_mem c hx)
    have hds := value_lt fun x hx => hd x (List.mem_cons_of_mem d hx)
    rw [value_cons, value_cons, hlen] at h
    rw [hlen] at hcs
    have hdigit : digit c = digit d := by
      have hc' := congrArg (· / 10 ^ ds.length) h
      simpa [Nat.mul_add_div, Nat.div_eq_of_lt hcs, Nat.div_eq_of_lt hds] using hc'
    rw [digit_inj (hc c (List.mem_cons_self ..)) (hd d (List.mem_cons_self ..)) hdigit]
    rw [hdigit] at h
    rw [eq_of_length (fun x hx => hc x (List.mem_cons_of_mem c hx))
      (fun x hx => hd x (List.mem_cons_of_mem d hx)) hlen (Nat.add_left_cancel h)]

theorem value_significant : ∀ ds : List Char, value (significant ds) = value ds
  | [] => rfl
  | c :: cs => by
    unfold significant
    by_cases hc : c = '0'
    · subst hc
      rw [List.dropWhile_cons_of_pos (by simp)]
      have ih := value_significant cs
      rw [significant] at ih
      rw [ih, value_cons]
      simp [digit]
    · rw [List.dropWhile_cons_of_neg (by simpa using hc)]

theorem significant_digits {ds : List Char} (h : ∀ c ∈ ds, c.isDigit = true) :
    ∀ c ∈ significant ds, c.isDigit = true :=
  fun c hc => h c ((List.dropWhile_sublist _).subset hc)

theorem significant_head {ds cs : List Char} {c : Char} (h : significant ds = c :: cs) :
    c ≠ '0' := by
  have hhead := List.head?_dropWhile_not (· = '0') ds
  unfold significant at h
  rw [h] at hhead
  simpa using hhead

/-- A numeral without leading zeros is no longer than one of a value at least as large. -/
theorem length_le {ds es : List Char} (hds : ∀ c ∈ ds, c.isDigit = true)
    (hhead : ∀ c cs, ds = c :: cs → c ≠ '0') (hes : ∀ c ∈ es, c.isDigit = true)
    (h : value ds ≤ value es) : ds.length ≤ es.length := by
  cases ds with
  | nil => exact Nat.zero_le _
  | cons c cs =>
    have hc := hds c (List.mem_cons_self ..)
    have hpos : 0 < digit c := by
      refine Nat.pos_of_ne_zero fun hzero => hhead c cs rfl (digit_inj hc (by decide) ?_)
      rw [hzero]
      rfl
    have hlow : 10 ^ cs.length ≤ value (c :: cs) := by
      rw [value_cons]
      exact (Nat.le_mul_of_pos_right _ hpos).trans (Nat.le_add_right ..)
    exact (Nat.pow_lt_pow_iff_right (by decide)).mp ((hlow.trans h).trans_lt (value_lt hes))

/-- **Two numerals denote one number exactly when they agree after their leading zeros.** -/
theorem value_eq_iff {ds es : List Char} (hds : ∀ c ∈ ds, c.isDigit = true)
    (hes : ∀ c ∈ es, c.isDigit = true) : value ds = value es ↔ significant ds = significant es := by
  constructor
  · intro h
    rw [← value_significant ds, ← value_significant es] at h
    have hds' := significant_digits hds
    have hes' := significant_digits hes
    have hle := length_le hds' (fun _ _ => significant_head) hes' h.le
    have hge := length_le hes' (fun _ _ => significant_head) hds' h.ge
    exact eq_of_length hds' hes' (le_antisymm hle hge) h
  · intro h
    rw [← value_significant ds, h, value_significant]

/-! ## The numeral of a number -/

theorem isDigit_of_mem_repr {n : Nat} {c : Char} (h : c ∈ n.repr.toList) : c.isDigit = true := by
  rw [Nat.toList_repr] at h
  exact Nat.isDigit_of_mem_toDigits (by decide) (by decide) h

theorem value_repr (n : Nat) : value n.repr.toList = n := by
  rw [value, Nat.toList_repr, Nat.ofDigitChars_toDigits (by decide) (by decide)]

end Lichtung.Decimal
