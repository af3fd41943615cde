import Lichtung.Lib.Decimal

/-!
# Compact JSON

JSON values, the compact text a serializer writes for them, and a reader of that text.  Objects are
lists of members, in text order and with repeated names.  How a floating-point number is written is
a parameter: a token of number characters that is not an integer.

Principal results: `parse_print` (reading what was written), `print_char` (the text holds no
control character, so it is one line) and `print_obj` (an object stands between braces).
-/

namespace Lichtung

inductive Json (F : Type) where
  | null
  | bool (b : Bool)
  | int (n : Int)
  | float (x : F)
  | str (s : String)
  | arr (items : List (Json F))
  | obj (members : List (String × Json F))

namespace Json

/-! ## Strings -/

/-- A hexadecimal digit, in lower case. -/
def hexDigit (n : Nat) : Char := Char.ofNat (if n < 10 then n + 48 else n + 87)

def hexValue (c : Char) : Option Nat :=
  if c.isDigit then some (c.toNat - 48)
  else if 97 ≤ c.toNat ∧ c.toNat ≤ 102 then some (c.toNat - 87)
  else if 65 ≤ c.toNat ∧ c.toNat ≤ 70 then some (c.toNat - 55)
  else none

/-- The escapes with a letter of their own. -/
def shortEscapes : List (Char × Char) :=
  [('"', '"'), ('\\', '\\'), ('b', '\x08'), ('t', '\t'), ('n', '\n'), ('f', '\x0c'), ('r', '\r')]

/-- A character of a string: quotes, backslashes and control characters are escaped. -/
def escape (c : Char) : List Char :=
  match shortEscapes.find? fun p => p.2 = c with
  | some p => ['\\', p.1]
  | none =>
    if c.toNat < 32 then ['\\', 'u', '0', '0', hexDigit (c.toNat / 16), hexDigit (c.toNat % 16)]
    else [c]

/-- The character of `\u` and four digits, which may not be a surrogate. -/
def unicode (a b c d : Char) : Option Char := do
  let n := (← hexValue a) * 4096 + (← hexValue b) * 256 + (← hexValue c) * 16 + (← hexValue d)
  if n < 0xd800 ∨ 0xdfff < n then some (Char.ofNat n) else none

/-- One character of a string. -/
def readChar : List Char → Option (Char × List Char)
  | [] => none
  | '\\' :: 'u' :: a :: b :: c :: d :: cs => (unicode a b c d).map (·, cs)
  | '\\' :: e :: cs => (shortEscapes.find? fun p => p.1 = e).map fun p => (p.2, cs)
  | c :: cs => if c.toNat < 32 then none else some (c, cs)

/-- The rest of a string, up to its closing quote. -/
def stringBody : Nat → List Char → Option (List Char × List Char)
  | 0, _ => none
  | n + 1, cs =>
    if cs.head? = some '"' then some ([], cs.tail)
    else do
      let (c, cs) ← readChar cs
      let (s, cs) ← stringBody n cs
      some (c :: s, cs)

/-- A string with its quotes. -/
def quote (s : String) : List Char := '"' :: (s.toList.flatMap escape ++ ['"'])

theorem unicode_control : ∀ n < 32,
    unicode '0' '0' (hexDigit (n / 16)) (hexDigit (n % 16)) = some (Char.ofNat n) := by
  decide

theorem escape_cases (c : Char) :
    (∃ e, (e, c) ∈ shortEscapes ∧ escape c = ['\\', e]) ∨
      (c.toNat < 32 ∧
        escape c = ['\\', 'u', '0', '0', hexDigit (c.toNat / 16), hexDigit (c.toNat % 16)]) ∨
      (32 ≤ c.toNat ∧ c ≠ '"' ∧ c ≠ '\\' ∧ escape c = [c]) := by
  unfold escape
  split
  · rename_i p hp
    have hc : p.2 = c := by simpa using List.find?_some hp
    exact .inl ⟨p.1, hc ▸ List.mem_of_find?_eq_some hp, rfl⟩
  · rename_i hnone
    have hne : ∀ p ∈ shortEscapes, p.2 ≠ c := by simpa using hnone
    split
    · exact .inr (.inl ⟨by assumption, rfl⟩)
    · refine .inr (.inr ⟨by omega, ?_, ?_, rfl⟩)
      · exact Ne.symm (hne ('"', '"') (by decide))
      · exact Ne.symm (hne ('\\', '\\') (by decide))

theorem readChar_plain {c : Char} {cs : List Char} (h : c ≠ '\\') :
    readChar (c :: cs) = if c.toNat < 32 then none else some (c, cs) := by
  unfold readChar
  split
  · simp_all
  · simp_all
  · simp_all
  · simp_all

theorem readChar_short :
    ∀ p ∈ shortEscapes, ∀ cs, readChar ('\\' :: p.1 :: cs) = some (p.2, cs) := by
  intro p hp cs
  simp only [shortEscapes, List.mem_cons, List.not_mem_nil, or_false] at hp
  rcases hp with rfl | rfl | rfl | rfl | rfl | rfl | rfl <;> rfl

/-- What is written for a character is read as that character, and does not end the string. -/
theorem readChar_escape (c : Char) (cs : List Char) :
    readChar (escape c ++ cs) = some (c, cs) ∧ (escape c ++ cs).head? ≠ some '"' := by
  rcases escape_cases c with ⟨e, he, hc⟩ | ⟨hlt, hc⟩ | ⟨hle, hq, hb, hc⟩
  · rw [hc]
    exact ⟨readChar_short _ he cs, by simp⟩
  · rw [hc]
    refine ⟨?_, by simp⟩
    have hu := unicode_control c.toNat hlt
    rw [Char.ofNat_toNat] at hu
    calc readChar ('\\' :: 'u' :: '0' :: '0' :: hexDigit (c.toNat / 16) ::
          hexDigit (c.toNat % 16) :: cs)
        = (unicode '0' '0' (hexDigit (c.toNat / 16)) (hexDigit (c.toNat % 16))).map (·, cs) := rfl
      _ = some (c, cs) := by rw [hu]; rfl
  · rw [hc, List.singleton_append, readChar_plain hb, if_neg (by omega)]
    exact ⟨rfl, by simpa using hq⟩

theorem stringBody_flatMap : ∀ (s : List Char) {n : Nat} (rest : List Char), s.length < n →
    stringBody n (s.flatMap escape ++ '"' :: rest) = some (s, rest)
  | _, 0, _, h => absurd h (Nat.not_lt_zero _)
  | [], n + 1, rest, _ => by simp [stringBody]
  | c :: s, n + 1, rest, h => by
    have ih := stringBody_flatMap s rest (Nat.lt_of_succ_lt_succ h)
    obtain ⟨hread, hhead⟩ := readChar_escape c (s.flatMap escape ++ '"' :: rest)
    rw [List.flatMap_cons, List.append_assoc, stringBody, if_neg hhead, hread]
    simp [ih]

theorem escape_char {c d : Char} (h : d ∈ escape c) : 32 ≤ d.toNat := by
  have hshort : ∀ p ∈ shortEscapes, 32 ≤ p.1.toNat := by decide
  have hhex : ∀ n < 16, 32 ≤ (hexDigit n).toNat := by decide
  rcases escape_cases c with ⟨e, he, hc⟩ | ⟨hlt, hc⟩ | ⟨hle, -, -, hc⟩
  · rw [hc] at h
    simp only [List.mem_cons, List.not_mem_nil, or_false] at h
    rcases h with rfl | rfl
    · decide
    · exact hshort _ he
  · rw [hc] at h
    simp only [List.mem_cons, List.not_mem_nil, or_false] at h
    rcases h with rfl | rfl | rfl | rfl | rfl | rfl
    · decide
    · decide
    · decide
    · decide
    · exact hhex _ (by omega)
    · exact hhex _ (by omega)
  · rw [hc, List.mem_singleton] at h
    rwa [h]

theorem quote_char {s : String} {d : Char} (h : d ∈ quote s) : 32 ≤ d.toNat := by
  simp only [quote, List.mem_cons, List.mem_append, List.mem_flatMap, List.not_mem_nil,
    or_false] at h
  rcases h with rfl | ⟨c, -, hd⟩ | rfl
  · decide
  · exact escape_char hd
  · decide

theorem length_quote (s : String) : s.toList.length + 2 ≤ (quote s).length := by
  have h : ∀ l : List Char, l.length ≤ (l.flatMap escape).length := by
    intro l
    induction l with
    | nil => exact le_rfl
    | cons c l ih =>
      have hpos : 0 < (escape c).length := by
        rcases escape_cases c with ⟨e, -, hc⟩ | ⟨-, hc⟩ | ⟨-, -, -, hc⟩ <;> simp [hc]
      rw [List.flatMap_cons, List.length_append, List.length_cons]
      omega
  have := h s.toList
  simp only [quote, List.length_cons, List.length_append, List.length_nil]
  omega

/-! ## Numbers -/

def isNumberChar (c : Char) : Bool := c.isDigit || c ∈ ['-', '+', '.', 'e', 'E']

/-- A natural number in decimal, without leading zeros. -/
def natOf (cs : List Char) : Option Nat :=
  if cs = (Decimal.value cs).repr.toList then some (Decimal.value cs) else none

def intText : Int → List Char
  | .ofNat n => n.repr.toList
  | .negSucc n => '-' :: (n + 1).repr.toList

/-- An integer token.  `-0` is left to the floats, which have a negative zero. -/
def intOf : List Char → Option Int
  | '-' :: cs => (natOf cs).bind fun n => if n = 0 then none else some (-n)
  | cs => (natOf cs).map Int.ofNat

/-- How floats are written and read: a float without a text of its own is written `null`. -/
structure FloatFormat (F : Type) where
  text : F → Option (List Char)
  read : List Char → Option F
  ne_nil : ∀ {x t}, text x = some t → t ≠ []
  chars : ∀ {x t}, text x = some t → ∀ c ∈ t, isNumberChar c = true
  not_int : ∀ {x t}, text x = some t → intOf t = none
  read_text : ∀ {x t}, text x = some t → read t = some x

theorem natOf_repr (n : Nat) : natOf n.repr.toList = some n := by
  rw [natOf, Decimal.value_repr, if_pos rfl]

theorem repr_chars (n : Nat) : ∀ c ∈ n.repr.toList, isNumberChar c = true := by
  intro c hc
  rw [isNumberChar, Decimal.isDigit_of_mem_repr hc, Bool.true_or]

theorem repr_ne_nil (n : Nat) : n.repr.toList ≠ [] := by
  rw [Nat.toList_repr]
  exact Nat.toDigits_ne_nil

theorem intOf_intText : ∀ n : Int, intOf (intText n) = some n
  | .ofNat n => by
    have hne : ∀ cs, n.repr.toList ≠ '-' :: cs := by
      intro cs h
      have hmem : '-' ∈ n.repr.toList := by rw [h]; exact List.mem_cons_self ..
      exact absurd (Decimal.isDigit_of_mem_repr hmem) (by decide)
    have hcs : intOf n.repr.toList = (natOf n.repr.toList).map Int.ofNat := by
      unfold intOf
      split
      · rename_i h
        exact absurd h (hne _)
      · rfl
    rw [intText, hcs, natOf_repr]
    rfl
  | .negSucc n => by
    rw [intText, intOf, natOf_repr]
    rfl

theorem intText_chars : ∀ n : Int, ∀ c ∈ intText n, isNumberChar c = true
  | .ofNat n => repr_chars n
  | .negSucc n => by
    intro c hc
    rcases List.mem_cons.mp hc with rfl | hc
    · decide
    · exact repr_chars _ c hc

theorem intText_ne_nil : ∀ n : Int, intText n ≠ []
  | .ofNat n => repr_ne_nil n
  | .negSucc _ => List.cons_ne_nil _ _

/-! ## Writing -/

variable {F : Type}

section Print

variable (fmt : FloatFormat F)

mutual

def print : Json F → List Char
  | .null => ['n', 'u', 'l', 'l']
  | .bool true => ['t', 'r', 'u', 'e']
  | .bool false => ['f', 'a', 'l', 's', 'e']
  | .int n => intText n
  | .float x => (fmt.text x).getD ['n', 'u', 'l', 'l']
  | .str s => quote s
  | .arr [] => ['[', ']']
  | .arr (v :: vs) => '[' :: (print v ++ printItems vs)
  | .obj [] => ['{', '}']
  | .obj ((k, v) :: ms) => '{' :: (quote k ++ ':' :: (print v ++ printMembers ms))

/-- The rest of an array, from a comma or the closing bracket on. -/
def printItems : List (Json F) → List Char
  | [] => [']']
  | v :: vs => ',' :: (print v ++ printItems vs)

/-- The rest of an object, from a comma or the closing brace on. -/
def printMembers : List (String × Json F) → List Char
  | [] => ['}']
  | (k, v) :: ms => ',' :: (quote k ++ ':' :: (print v ++ printMembers ms))

end

end Print

/-! ## Reading -/

def isSpace (c : Char) : Bool := c ∈ [' ', '\t', '\n', '\r']

def skip (cs : List Char) : List Char := cs.dropWhile isSpace

section Read

variable (fmt : FloatFormat F)

def number (cs : List Char) : Option (Json F × List Char) :=
  let token := cs.takeWhile isNumberChar
  let rest := cs.dropWhile isNumberChar
  match intOf token with
  | some n => some (.int n, rest)
  | none => (fmt.read token).map (.float ·, rest)

mutual

def value : Nat → List Char → Option (Json F × List Char)
  | 0, _ => none
  | n + 1, cs =>
    match skip cs with
    | 'n' :: 'u' :: 'l' :: 'l' :: cs => some (.null, cs)
    | 't' :: 'r' :: 'u' :: 'e' :: cs => some (.bool true, cs)
    | 'f' :: 'a' :: 'l' :: 's' :: 'e' :: cs => some (.bool false, cs)
    | '"' :: cs => (stringBody n cs).map fun p => (.str (String.ofList p.1), p.2)
    | '[' :: cs =>
      match skip cs with
      | ']' :: cs => some (.arr [], cs)
      | cs => do
        let (v, cs) ← value n cs
        let (vs, cs) ← items n cs
        some (.arr (v :: vs), cs)
    | '{' :: cs =>
      match skip cs with
      | '}' :: cs => some (.obj [], cs)
      | cs => do
        let (m, cs) ← member n cs
        let (ms, cs) ← members n cs
        some (.obj (m :: ms), cs)
    | cs => number fmt cs

def items : Nat → List Char → Option (List (Json F) × List Char)
  | 0, _ => none
  | n + 1, cs =>
    match skip cs with
    | ']' :: cs => some ([], cs)
    | ',' :: cs => do
      let (v, cs) ← value n cs
      let (vs, cs) ← items n cs
      some (v :: vs, cs)
    | _ => none

def member : Nat → List Char → Option ((String × Json F) × List Char)
  | 0, _ => none
  | n + 1, cs =>
    match skip cs with
    | '"' :: cs => do
      let (k, cs) ← stringBody n cs
      match skip cs with
      | ':' :: cs => (value n cs).map fun p => ((String.ofList k, p.1), p.2)
      | _ => none
    | _ => none

def members : Nat → List Char → Option (List (String × Json F) × List Char)
  | 0, _ => none
  | n + 1, cs =>
    match skip cs with
    | '}' :: cs => some ([], cs)
    | ',' :: cs => do
      let (m, cs) ← member n cs
      let (ms, cs) ← members n cs
      some (m :: ms, cs)
    | _ => none

end

/-- The value a text denotes. -/
def parse (text : List Char) : Option (Json F) :=
  match value fmt (text.length + 1) text with
  | some (j, rest) => if skip rest = [] then some j else none
  | none => none

end Read

/-! ## Reading what was written -/

section All

variable (okInt : Int → Prop) (okFloat : F → Prop)

mutual

/-- Every number of the value meets the conditions. -/
def All : Json F → Prop
  | .int n => okInt n
  | .float x => okFloat x
  | .arr vs => AllItems vs
  | .obj ms => AllMembers ms
  | _ => True

def AllItems : List (Json F) → Prop
  | [] => True
  | v :: vs => All v ∧ AllItems vs

def AllMembers : List (String × Json F) → Prop
  | [] => True
  | (_, v) :: ms => All v ∧ AllMembers ms

end

end All

/-- What may follow a number. -/
def Delimited (rest : List Char) : Prop := ∀ c ∈ rest.head?, isNumberChar c = false

section RoundTrip

variable {fmt : FloatFormat F} {okInt : Int → Prop}

@[simp] theorem skip_cons {c : Char} {cs : List Char} (h : isSpace c = false) :
    skip (c :: cs) = c :: cs := List.dropWhile_cons_of_neg (by simpa using h)

theorem number_char {c : Char} (h : isNumberChar c = true) :
    isSpace c = false ∧ c ∉ ['"', '[', ']', '{', 'n', 't', 'f'] ∧ 32 ≤ c.toNat := by
  unfold isNumberChar at h
  rcases Bool.or_eq_true_iff.mp h with hd | hs
  · have hlow : 48 ≤ c.toNat := by
      simp only [Char.isDigit, Bool.and_eq_true, decide_eq_true_eq] at hd
      exact hd.1
    have hhigh : c.toNat ≤ 57 := by
      simp only [Char.isDigit, Bool.and_eq_true, decide_eq_true_eq] at hd
      exact hd.2
    refine ⟨?_, ?_, by omega⟩
    · simp only [isSpace, decide_eq_false_iff_not, List.mem_cons, List.not_mem_nil, or_false]
      rintro (rfl | rfl | rfl | rfl) <;> exact absurd hlow (by decide)
    · simp only [List.mem_cons, List.not_mem_nil, or_false]
      rintro (rfl | rfl | rfl | rfl | rfl | rfl | rfl) <;>
        first | exact absurd hlow (by decide) | exact absurd hhigh (by decide)
  · simp only [decide_eq_true_eq, List.mem_cons, List.not_mem_nil, or_false] at hs
    rcases hs with rfl | rfl | rfl | rfl | rfl <;> decide

theorem value_number {n : Nat} {t rest : List Char} (hne : t ≠ [])
    (ht : ∀ c ∈ t, isNumberChar c = true) :
    value fmt (n + 1) (t ++ rest) = number fmt (t ++ rest) := by
  obtain ⟨c, t, rfl⟩ := List.exists_cons_of_ne_nil hne
  obtain ⟨hspace, hc, -⟩ := number_char (ht c (List.mem_cons_self ..))
  rw [List.cons_append, value, skip_cons hspace]
  split <;> simp_all

theorem number_append {t rest : List Char} (ht : ∀ c ∈ t, isNumberChar c = true)
    (hrest : Delimited rest) :
    number fmt (t ++ rest) = match intOf t with
      | some n => some (.int n, rest)
      | none => (fmt.read t).map (.float ·, rest) := by
  have htake : (t ++ rest).takeWhile isNumberChar = t := by
    rw [List.takeWhile_append_of_pos ht]
    cases rest with
    | nil => simp
    | cons c rest => rw [List.takeWhile_cons_of_neg (by simp [hrest c rfl]), List.append_nil]
  have hdrop : (t ++ rest).dropWhile isNumberChar = rest := by
    rw [List.dropWhile_append_of_pos ht]
    cases rest with
    | nil => rfl
    | cons c rest => exact List.dropWhile_cons_of_neg (by simp [hrest c rfl])
  rw [number, htake, hdrop]

theorem print_head {j : Json F} (h : j.All okInt fun x => (fmt.text x).isSome = true) :
    ∃ c cs, print fmt j = c :: cs ∧ isSpace c = false ∧ c ≠ ']' := by
  have hnum : ∀ {t : List Char}, t ≠ [] → (∀ c ∈ t, isNumberChar c = true) →
      ∃ c cs, t = c :: cs ∧ isSpace c = false ∧ c ≠ ']' := by
    intro t hne ht
    obtain ⟨c, cs, rfl⟩ := List.exists_cons_of_ne_nil hne
    obtain ⟨hspace, hc, -⟩ := number_char (ht c (List.mem_cons_self ..))
    exact ⟨c, cs, rfl, hspace, fun he => hc (by simp [he])⟩
  cases j with
  | null => exact ⟨_, _, rfl, rfl, by decide⟩
  | bool b => cases b <;> exact ⟨_, _, rfl, rfl, by decide⟩
  | int n =>
    rw [print]
    exact hnum (intText_ne_nil n) (intText_chars n)
  | float x =>
    rw [All] at h
    obtain ⟨t, ht⟩ := Option.isSome_iff_exists.mp h
    rw [print, ht, Option.getD_some]
    exact hnum (fmt.ne_nil ht) (fmt.chars ht)
  | str s => exact ⟨_, _, by rw [print, quote], rfl, by decide⟩
  | arr vs => cases vs <;> exact ⟨_, _, by rw [print], rfl, by decide⟩
  | obj ms => cases ms <;> exact ⟨_, _, by rw [print], rfl, by decide⟩

theorem delimited_items (vs : List (Json F)) (rest : List Char) :
    Delimited (printItems fmt vs ++ rest) := by
  cases vs <;> simp [printItems, Delimited, isNumberChar]

theorem delimited_members (ms : List (String × Json F)) (rest : List Char) :
    Delimited (printMembers fmt ms ++ rest) := by
  cases ms <;> simp [printMembers, Delimited, isNumberChar]

/-- A member reads back when its value does. -/
theorem member_quote {n : Nat} {k : String} {v : Json F} {cs rest : List Char}
    (hn : (quote k).length ≤ n) (hv : ∀ m, n = m + 1 → value fmt m cs = some (v, rest)) :
    member fmt n (quote k ++ ':' :: cs) = some ((k, v), rest) := by
  have hlen := length_quote k
  obtain ⟨n, rfl⟩ : ∃ m, n = m + 1 := ⟨n - 1, by omega⟩
  have hbody : stringBody n (k.toList.flatMap escape ++ '"' :: ':' :: cs) =
      some (k.toList, ':' :: cs) := stringBody_flatMap _ _ (by omega)
  rw [quote, List.cons_append, List.append_assoc, List.singleton_append, member,
    skip_cons (by decide)]
  simp only [hbody, Option.bind_eq_bind, Option.bind_some,
    skip_cons (show isSpace ':' = false by decide), hv n rfl, Option.map_some,
    String.ofList_toList]

theorem value_text {n : Nat} {j : Json F} {t rest : List Char} (hne : t ≠ [])
    (ht : ∀ c ∈ t, isNumberChar c = true) (hrest : Delimited rest)
    (hj : (match intOf t with
      | some n => some (Json.int n, rest)
      | none => (fmt.read t).map (.float ·, rest)) = some (j, rest)) :
    value fmt (n + 1) (t ++ rest) = some (j, rest) := by
  rw [value_number hne ht, number_append ht hrest, hj]

mutual

theorem value_print {j : Json F} (h : j.All okInt fun x => (fmt.text x).isSome = true) {n : Nat}
    {rest : List Char} (hn : (print fmt j).length ≤ n) (hrest : Delimited rest) :
    value fmt n (print fmt j ++ rest) = some (j, rest) := by
  obtain ⟨c, cs, hhead, hspace, -⟩ := print_head h
  obtain ⟨n, rfl⟩ : ∃ m, n = m + 1 := ⟨n - 1, by rw [hhead, List.length_cons] at hn; omega⟩
  match j with
  | .null => simp [print, value, isSpace]
  | .bool true => simp [print, value, isSpace]
  | .bool false => simp [print, value, isSpace]
  | .int k =>
    rw [print]
    exact value_text (intText_ne_nil k) (intText_chars k) hrest (by rw [intOf_intText])
  | .float x =>
    rw [All] at h
    obtain ⟨t, ht⟩ := Option.isSome_iff_exists.mp h
    rw [print, ht, Option.getD_some]
    refine value_text (fmt.ne_nil ht) (fmt.chars ht) hrest ?_
    rw [fmt.not_int ht, fmt.read_text ht]
    rfl
  | .str s =>
    have hlen := length_quote s
    rw [print] at hn
    have hbody : stringBody n (s.toList.flatMap escape ++ '"' :: rest) = some (s.toList, rest) :=
      stringBody_flatMap _ _ (by omega)
    rw [print, quote, List.cons_append, List.append_assoc, List.singleton_append, value,
      skip_cons (by decide)]
    simp only [hbody, Option.map_some, String.ofList_toList]
  | .arr [] => simp [print, value, isSpace]
  | .arr (v :: vs) =>
    rw [All, AllItems] at h
    rw [print, List.length_cons, List.length_append] at hn
    obtain ⟨c, cs, hv, hvspace, hvc⟩ := print_head h.1
    have h1 : value fmt n (print fmt v ++ (printItems fmt vs ++ rest)) =
        some (v, printItems fmt vs ++ rest) := value_print h.1 (by omega) (delimited_items vs rest)
    have h2 : items fmt n (printItems fmt vs ++ rest) = some (vs, rest) :=
      items_print h.2 (by omega)
    rw [print, List.cons_append, List.append_assoc, value, skip_cons (by decide)]
    rw [hv, List.cons_append] at h1 ⊢
    simp only [skip_cons hvspace]
    split
    · simp_all
    · simp only [h1, h2, Option.bind_eq_bind, Option.bind_some]
  | .obj [] => simp [print, value, isSpace]
  | .obj ((k, v) :: ms) =>
    rw [All, AllMembers] at h
    rw [print, List.length_cons, List.length_append, List.length_cons, List.length_append] at hn
    have h1 : member fmt n (quote k ++ ':' :: (print fmt v ++ (printMembers fmt ms ++ rest))) =
        some ((k, v), printMembers fmt ms ++ rest) :=
      member_quote (by omega) fun m hm =>
        value_print h.1 (by have := length_quote k; omega) (delimited_members ms rest)
    have h2 : members fmt n (printMembers fmt ms ++ rest) = some (ms, rest) :=
      members_print h.2 (by omega)
    rw [print, List.cons_append, List.append_assoc, List.cons_append, List.append_assoc, value,
      skip_cons (by decide)]
    rw [quote, List.cons_append] at h1 ⊢
    simp only [skip_cons (show isSpace '"' = false by decide)]
    split
    · simp_all
    · simp only [h1, h2, Option.bind_eq_bind, Option.bind_some]

theorem items_print {vs : List (Json F)}
    (h : AllItems okInt (fun x => (fmt.text x).isSome = true) vs) {n : Nat} {rest : List Char}
    (hn : (printItems fmt vs).length ≤ n) :
    items fmt n (printItems fmt vs ++ rest) = some (vs, rest) := by
  match vs with
  | [] =>
    obtain ⟨n, rfl⟩ : ∃ m, n = m + 1 := ⟨n - 1, by rw [printItems, List.length_cons] at hn; omega⟩
    simp [printItems, items, isSpace]
  | v :: vs =>
    obtain ⟨n, rfl⟩ : ∃ m, n = m + 1 := ⟨n - 1, by rw [printItems, List.length_cons] at hn; omega⟩
    rw [AllItems] at h
    rw [printItems, List.length_cons, List.length_append] at hn
    have h1 : value fmt n (print fmt v ++ (printItems fmt vs ++ rest)) =
        some (v, printItems fmt vs ++ rest) := value_print h.1 (by omega) (delimited_items vs rest)
    have h2 : items fmt n (printItems fmt vs ++ rest) = some (vs, rest) :=
      items_print h.2 (by omega)
    rw [printItems, List.cons_append, List.append_assoc, items, skip_cons (by decide)]
    simp only [h1, h2, Option.bind_eq_bind, Option.bind_some]

theorem members_print {ms : List (String × Json F)}
    (h : AllMembers okInt (fun x => (fmt.text x).isSome = true) ms) {n : Nat} {rest : List Char}
    (hn : (printMembers fmt ms).length ≤ n) :
    members fmt n (printMembers fmt ms ++ rest) = some (ms, rest) := by
  match ms with
  | [] =>
    obtain ⟨n, rfl⟩ : ∃ m, n = m + 1 := ⟨n - 1, by rw [printMembers, List.length_cons] at hn; omega⟩
    simp [printMembers, members, isSpace]
  | (k, v) :: ms =>
    obtain ⟨n, rfl⟩ : ∃ m, n = m + 1 := ⟨n - 1, by rw [printMembers, List.length_cons] at hn; omega⟩
    rw [AllMembers] at h
    rw [printMembers, List.length_cons, List.length_append, List.length_cons,
      List.length_append] at hn
    have h1 : member fmt n (quote k ++ ':' :: (print fmt v ++ (printMembers fmt ms ++ rest))) =
        some ((k, v), printMembers fmt ms ++ rest) :=
      member_quote (by omega) fun m hm =>
        value_print h.1 (by have := length_quote k; omega) (delimited_members ms rest)
    have h2 : members fmt n (printMembers fmt ms ++ rest) = some (ms, rest) :=
      members_print h.2 (by omega)
    rw [printMembers, List.cons_append, List.append_assoc, List.cons_append, List.append_assoc,
      members, skip_cons (by decide)]
    simp only [h1, h2, Option.bind_eq_bind, Option.bind_some]

end

/-- **Reading what was written.** -/
theorem parse_print {j : Json F} (h : j.All okInt fun x => (fmt.text x).isSome = true) :
    parse fmt (print fmt j) = some j := by
  have hread : value fmt ((print fmt j).length + 1) (print fmt j ++ []) = some (j, []) :=
    value_print h (Nat.le_succ _) (by simp [Delimited])
  rw [List.append_nil] at hread
  rw [parse, hread]
  rfl

/-! ## The text of a value -/

theorem control_free {t : List Char} (ht : ∀ c ∈ t, isNumberChar c = true) :
    ∀ c ∈ t, 32 ≤ c.toNat :=
  fun c hc => (number_char (ht c hc)).2.2

mutual

theorem print_char {j : Json F} {d : Char} (hd : d ∈ print fmt j) : 32 ≤ d.toNat := by
  match j with
  | .null => exact (by simp : ∀ c ∈ ['n', 'u', 'l', 'l'], 32 ≤ c.toNat) d (by rwa [print] at hd)
  | .bool true =>
    exact (by simp : ∀ c ∈ ['t', 'r', 'u', 'e'], 32 ≤ c.toNat) d (by rwa [print] at hd)
  | .bool false =>
    exact (by simp : ∀ c ∈ ['f', 'a', 'l', 's', 'e'], 32 ≤ c.toNat) d (by rwa [print] at hd)
  | .int k => exact control_free (intText_chars k) d (by rwa [print] at hd)
  | .float x =>
    rw [print] at hd
    cases ht : fmt.text x with
    | none =>
      rw [ht, Option.getD_none] at hd
      exact (by simp : ∀ c ∈ ['n', 'u', 'l', 'l'], 32 ≤ c.toNat) d hd
    | some t =>
      rw [ht, Option.getD_some] at hd
      exact control_free (fmt.chars ht) d hd
  | .str s => exact quote_char (by rwa [print] at hd)
  | .arr [] => exact (by simp : ∀ c ∈ ['[', ']'], 32 ≤ c.toNat) d (by rwa [print] at hd)
  | .arr (v :: vs) =>
    rw [print, List.mem_cons, List.mem_append] at hd
    rcases hd with rfl | hd | hd
    · decide
    · exact print_char hd
    · exact items_char hd
  | .obj [] => exact (by simp : ∀ c ∈ ['{', '}'], 32 ≤ c.toNat) d (by rwa [print] at hd)
  | .obj ((k, v) :: ms) =>
    rw [print, List.mem_cons, List.mem_append, List.mem_cons, List.mem_append] at hd
    rcases hd with rfl | hd | rfl | hd | hd
    · decide
    · exact quote_char hd
    · decide
    · exact print_char hd
    · exact members_char hd

theorem items_char {vs : List (Json F)} {d : Char} (hd : d ∈ printItems fmt vs) :
    32 ≤ d.toNat := by
  match vs with
  | [] => exact (by simp : ∀ c ∈ [']'], 32 ≤ c.toNat) d (by rwa [printItems] at hd)
  | v :: vs =>
    rw [printItems, List.mem_cons, List.mem_append] at hd
    rcases hd with rfl | hd | hd
    · decide
    · exact print_char hd
    · exact items_char hd

theorem members_char {ms : List (String × Json F)} {d : Char} (hd : d ∈ printMembers fmt ms) :
    32 ≤ d.toNat := by
  match ms with
  | [] => exact (by simp : ∀ c ∈ ['}'], 32 ≤ c.toNat) d (by rwa [printMembers] at hd)
  | (k, v) :: ms =>
    rw [printMembers, List.mem_cons, List.mem_append, List.mem_cons, List.mem_append] at hd
    rcases hd with rfl | hd | rfl | hd | hd
    · decide
    · exact quote_char hd
    · decide
    · exact print_char hd
    · exact members_char hd

end

theorem printMembers_concat : ∀ ms : List (String × Json F),
    ∃ cs, printMembers fmt ms = cs ++ ['}']
  | [] => ⟨[], by rw [printMembers, List.nil_append]⟩
  | (k, v) :: ms => by
    obtain ⟨cs, hcs⟩ := printMembers_concat ms
    exact ⟨',' :: (quote k ++ ':' :: (print fmt v ++ cs)), by rw [printMembers, hcs]; simp⟩

/-- **An object stands between braces.** -/
theorem print_obj (ms : List (String × Json F)) :
    ∃ cs, print fmt (.obj ms) = '{' :: (cs ++ ['}']) := by
  match ms with
  | [] => exact ⟨[], by rw [print, List.nil_append]⟩
  | (k, v) :: ms =>
    obtain ⟨cs, hcs⟩ := @printMembers_concat F fmt ms
    exact ⟨quote k ++ ':' :: (print fmt v ++ cs), by rw [print, hcs]; simp⟩

end RoundTrip

end Json

end Lichtung
