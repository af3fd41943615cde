import Mathlib

/-!
# Text as UTF-8 lines

The bytes of a string, and a reader that cuts a byte stream at line feeds, takes one carriage
return off the end of a terminated line, and decodes what is left.  In UTF-8 an ASCII byte stands
for that ASCII character alone, so cutting the bytes of a text is cutting the text.

Principal results: `mem_bytes_iff` (an ASCII byte occurs where its character does), `lines_append`
(the first line of a stream) and `decode_bytes`.
-/

namespace Lichtung.Lines

/-! ## UTF-8 -/

/-- The bytes of a string. -/
def bytes (s : String) : List UInt8 := s.toByteArray.data.toList

/-- The string with these bytes, if they are valid UTF-8. -/
def decode (bs : List UInt8) : Option String := String.fromUTF8? bs.toByteArray

theorem bytes_eq_flatMap (s : String) : bytes s = s.toList.flatMap String.utf8EncodeChar := by
  have h : s.toByteArray = (s.toList.flatMap String.utf8EncodeChar).toByteArray :=
    String.utf8Encode_toList.symm
  rw [bytes, h, List.toList_data_toByteArray]

@[simp] theorem bytes_append (s t : String) : bytes (s ++ t) = bytes s ++ bytes t := by
  simp [bytes_eq_flatMap]

@[simp] theorem decode_bytes (s : String) : decode (bytes s) = some s := by
  have h : (bytes s).toByteArray = s.toByteArray := by
    rw [bytes_eq_flatMap]
    exact String.utf8Encode_toList
  rw [decode, h, String.fromUTF8?, dif_pos s.isValidUTF8]
  rfl

/-- A character is one ASCII byte, or several bytes none of which is ASCII. -/
theorem encode_cases (c : Char) :
    c.toNat < 128 ∧ String.utf8EncodeChar c = [UInt8.ofNat c.toNat] ∨
      128 ≤ c.toNat ∧ String.utf8EncodeChar c ≠ [] ∧
        ∀ b ∈ String.utf8EncodeChar c, 128 ≤ b.toNat := by
  have hc : c.val.toNat = c.toNat := rfl
  unfold String.utf8EncodeChar
  simp only [hc]
  by_cases h1 : c.toNat ≤ 0x7f
  · exact .inl ⟨by omega, by rw [if_pos h1]⟩
  · refine .inr ⟨by omega, ?_⟩
    rw [if_neg h1]
    split
    · simp only [ne_eq, List.cons_ne_nil, not_false_eq_true, List.mem_cons, List.not_mem_nil,
        or_false, forall_eq_or_imp, forall_eq, UInt8.toNat_ofNat', true_and]
      omega
    · split
      · simp only [ne_eq, List.cons_ne_nil, not_false_eq_true, List.mem_cons, List.not_mem_nil,
          or_false, forall_eq_or_imp, forall_eq, UInt8.toNat_ofNat', true_and]
        omega
      · simp only [ne_eq, List.cons_ne_nil, not_false_eq_true, List.mem_cons, List.not_mem_nil,
          or_false, forall_eq_or_imp, forall_eq, UInt8.toNat_ofNat', true_and]
        omega

theorem mem_encode_iff {c d : Char} (hd : d.toNat < 128) :
    UInt8.ofNat d.toNat ∈ String.utf8EncodeChar c ↔ c = d := by
  have hdb : (UInt8.ofNat d.toNat).toNat = d.toNat := by
    rw [UInt8.toNat_ofNat']
    omega
  rcases encode_cases c with ⟨hc, henc⟩ | ⟨hc, -, hbs⟩
  · rw [henc, List.mem_singleton]
    constructor
    · intro h
      have hnat := congrArg UInt8.toNat h
      rw [hdb, UInt8.toNat_ofNat'] at hnat
      exact Char.toNat_inj.mp (by omega)
    · rintro rfl
      rfl
  · refine iff_of_false (fun h => ?_) fun h => ?_
    · have := hbs _ h
      omega
    · rw [h] at hc
      omega

/-- **An ASCII byte occurs where its character does.** -/
theorem mem_bytes_iff {s : String} {d : Char} (hd : d.toNat < 128) :
    UInt8.ofNat d.toNat ∈ bytes s ↔ d ∈ s.toList := by
  rw [bytes_eq_flatMap, List.mem_flatMap]
  constructor
  · rintro ⟨c, hc, hmem⟩
    rwa [(mem_encode_iff hd).mp hmem] at hc
  · exact fun h => ⟨d, h, (mem_encode_iff hd).mpr rfl⟩

/-! ## Lines -/

/-- A line without the carriage return at its end. -/
def chomp (l : List UInt8) : List UInt8 := if l.getLast? = some 13 then l.dropLast else l

/-- The lines of a stream, `cur` being read of the first: a terminated line loses its line feed and
one carriage return, and what follows the last line feed is a line unless it is empty. -/
def split (cur : List UInt8) : List UInt8 → List (List UInt8)
  | [] => if cur = [] then [] else [cur]
  | b :: bs => if b = 10 then chomp cur :: split [] bs else split (cur ++ [b]) bs

/-- The lines of a stream. -/
def lines (bs : List UInt8) : List (List UInt8) := split [] bs

/-- Lines written one after the other, each with a line feed. -/
def terminated (ls : List (List UInt8)) : List UInt8 := ls.flatMap fun l => l ++ [10]

theorem split_append {l rest : List UInt8} (h : 10 ∉ l) : ∀ cur : List UInt8,
    split cur (l ++ 10 :: rest) = chomp (cur ++ l) :: split [] rest := by
  induction l with
  | nil =>
    intro cur
    rw [List.nil_append, split, if_pos rfl, List.append_nil]
  | cons b l ih =>
    intro cur
    simp only [List.mem_cons, not_or] at h
    rw [List.cons_append, split, if_neg (Ne.symm h.1), ih h.2, List.append_assoc,
      List.singleton_append]

/-- **The first line of a stream.** -/
theorem lines_append {l rest : List UInt8} (h : 10 ∉ l) :
    lines (l ++ 10 :: rest) = chomp l :: lines rest := split_append h []

/-! ### Streams cut short -/

/-- The terminated lines of a stream: what follows the last line feed is cut off. -/
def whole : List UInt8 → List UInt8
  | [] => []
  | b :: bs => if 10 ∈ b :: bs then b :: whole bs else []

theorem whole_of_not_mem : ∀ {bs : List UInt8}, 10 ∉ bs → whole bs = []
  | [], _ => rfl
  | b :: bs, h => by rw [whole, if_neg h]

theorem whole_append (rest : List UInt8) : ∀ l : List UInt8,
    whole (l ++ 10 :: rest) = l ++ 10 :: whole rest
  | [] => by rw [List.nil_append, List.nil_append, whole, if_pos (List.mem_cons_self ..)]
  | b :: l => by
    have hmem : (10 : UInt8) ∈ b :: (l ++ 10 :: rest) := by simp
    rw [List.cons_append, List.cons_append, whole, if_pos hmem, whole_append rest l]

theorem terminated_cons (l : List UInt8) (ls : List (List UInt8)) :
    terminated (l :: ls) = l ++ 10 :: terminated ls := by
  simp [terminated]

/-- A torn line is cut off, and nothing else. -/
theorem whole_terminated {torn : List UInt8} (h : 10 ∉ torn) : ∀ ls : List (List UInt8),
    whole (terminated ls ++ torn) = terminated ls
  | [] => whole_of_not_mem h
  | l :: ls => by
    rw [terminated_cons, List.append_assoc, List.cons_append, whole_append,
      whole_terminated h ls]

/-- **A stream of lines cut anywhere** is some of its first lines and a torn one. -/
theorem cut_terminated : ∀ {ls : List (List UInt8)} {bs : List UInt8}, (∀ l ∈ ls, 10 ∉ l) →
    bs <+: terminated ls → ∃ n torn, 10 ∉ torn ∧ bs = terminated (ls.take n) ++ torn
  | [], bs, _, h => ⟨0, [], by simp, by simpa [terminated] using h⟩
  | l :: ls, bs, hls, h => by
    have hl : 10 ∉ l := hls l (List.mem_cons_self ..)
    have hrest : ∀ l' ∈ ls, 10 ∉ l' := fun l' hl' => hls l' (List.mem_cons_of_mem l hl')
    have heq : terminated (l :: ls) = (l ++ [10]) ++ terminated ls := by
      rw [terminated_cons, List.append_assoc, List.singleton_append]
    rw [heq] at h
    rcases List.prefix_or_prefix_of_prefix h (List.prefix_append (l ++ [10]) (terminated ls)) with
      hcut | hcut
    · rcases List.prefix_concat_iff.mp hcut with rfl | hcut
      · exact ⟨1, [], by simp, by simp [terminated]⟩
      · exact ⟨0, bs, fun hm => hl (hcut.subset hm), by simp [terminated]⟩
    · obtain ⟨bs', rfl⟩ := hcut
      obtain ⟨n, torn, htorn, rfl⟩ := cut_terminated hrest ((List.prefix_append_right_inj _).mp h)
      refine ⟨n + 1, torn, htorn, ?_⟩
      rw [List.take_succ_cons, terminated_cons, List.append_assoc, List.append_assoc]
      rfl

/-- A stream has one first line. -/
theorem first_line_inj : ∀ {l l' bs bs' : List UInt8}, 10 ∉ l → 10 ∉ l' →
    l ++ 10 :: bs = l' ++ 10 :: bs' → l = l' ∧ bs = bs'
  | [], [], _, _, _, _, h => ⟨rfl, (List.cons.inj h).2⟩
  | [], _ :: _, _, _, _, h', h => absurd (by simp [(List.cons.inj h).1]) h'
  | _ :: _, [], _, _, h', _, h => absurd (by simp [(List.cons.inj h).1]) h'
  | b :: l, b' :: l', _, _, hl, hl', h => by
    obtain ⟨rfl, hrest⟩ := List.cons.inj h
    obtain ⟨rfl, hbs⟩ := first_line_inj (fun hm => hl (List.mem_cons_of_mem _ hm))
      (fun hm => hl' (List.mem_cons_of_mem _ hm)) hrest
    exact ⟨rfl, hbs⟩

/-- A stream with any number of `blank` lines inserted before, between and after its lines. -/
inductive Padded (blank : String → Bool) : List UInt8 → List UInt8 → Prop
  | nil : Padded blank [] []
  | line {l bs ps : List UInt8} (hl : 10 ∉ l) (h : Padded blank bs ps) :
      Padded blank (l ++ 10 :: bs) (l ++ 10 :: ps)
  | blank {s : String} {bs ps : List UInt8} (hs : blank s = true) (hline : '\n' ∉ s.toList)
      (h : Padded blank bs ps) : Padded blank bs (bytes s ++ 10 :: ps)

theorem Padded.refl {blank : String → Bool} : ∀ {ls : List (List UInt8)}, (∀ l ∈ ls, 10 ∉ l) →
    Padded blank (terminated ls) (terminated ls)
  | [], _ => .nil
  | l :: ls, h => by
    have hrest := @Padded.refl blank ls fun l' hl' => h l' (List.mem_cons_of_mem l hl')
    unfold terminated at hrest ⊢
    rw [List.flatMap_cons, List.append_assoc, List.singleton_append]
    exact .line (h l (List.mem_cons_self ..)) hrest

theorem chomp_of_ne {l : List UInt8} (h : l.getLast? ≠ some 13) : chomp l = l := if_neg h

theorem chomp_concat (l : List UInt8) : chomp (l ++ [13]) = l := by
  simp [chomp]

/-- A text loses at most its last character. -/
theorem chomp_bytes (s : String) :
    (s.toList.getLast? ≠ some '\r' → chomp (bytes s) = bytes s) ∧
      ∃ t : String, chomp (bytes s) = bytes t ∧ ∀ c ∈ t.toList, c ∈ s.toList := by
  rcases List.eq_nil_or_concat' s.toList with hnil | ⟨l, c, hs⟩
  · have hb : bytes s = [] := by rw [bytes_eq_flatMap, hnil]; rfl
    rw [hb]
    exact ⟨fun _ => rfl, s, hb.symm, fun c hc => hc⟩
  · have hb : bytes s = bytes (String.ofList l) ++ String.utf8EncodeChar c := by
      rw [bytes_eq_flatMap, bytes_eq_flatMap, hs, List.flatMap_append, String.toList_ofList]
      simp
    by_cases hc : c = '\r'
    · subst hc
      have henc : String.utf8EncodeChar '\r' = [13] := by decide
      refine ⟨fun h => absurd (by rw [hs]; simp) h, String.ofList l, ?_, fun d hd => ?_⟩
      · rw [hb, henc, chomp_concat]
      · rw [String.toList_ofList] at hd
        rw [hs]
        exact List.mem_append_left _ hd
    · have hlast : (bytes s).getLast? ≠ some 13 := by
        intro h
        have hmem : (13 : UInt8) ∈ String.utf8EncodeChar c := by
          have hne : String.utf8EncodeChar c ≠ [] := String.utf8EncodeChar_ne_nil
          rw [hb, List.getLast?_append_of_ne_nil _ hne] at h
          exact List.mem_of_getLast? h
        exact hc ((mem_encode_iff (d := '\r') (by decide)).mp hmem)
      exact ⟨fun _ => chomp_of_ne hlast, s, chomp_of_ne hlast, fun d hd => hd⟩

end Lichtung.Lines
