import SourceScan.Proofs.Json.String
import SourceScan.Proofs.Value

/-!
# Texts of values in JSON

The grammar of the texts that stand for a simple value, whatever space lies between the
marks and however the characters of its strings are written.  The reader takes such a text
whole, and what it gives is the value.
-/

namespace SourceScan.Json

open Value (Short Simple)

def Space (s : Text) : Prop := ∀ c ∈ s, isSpace c = true

def IsString (s w : Text) : Prop :=
  ∃ escape, ReadsBack escape ∧ w = '"' :: s.flatMap escape ++ ['"']

mutual

inductive Written : Value → Text → Prop
  | null : Written .null "null"
  | bool (b : Bool) : Written (.bool b) (if b then "true" else "false")
  | int {i : Int} (h : Short i) : Written (.int i) (Text.ofInt i)
  | str {s w : Text} (h : IsString s w) : Written (.str s) w
  | emptyList : Written (.list []) ['[', ']']
  | list {vs : List Value} {before w after : Text} (hbefore : Space before)
      (hitems : WrittenItems vs w) (hafter : Space after) :
      Written (.list vs) ('[' :: before ++ w ++ after ++ [']'])
  | emptyMap : Written (.map []) ['\x7b', '\x7d']
  | map {es : List (Value × Value)} {before w after : Text} (hbefore : Space before)
      (hkeys : (es.map (·.1)).Nodup) (hmembers : WrittenMembers es w) (hafter : Space after) :
      Written (.map es) ('\x7b' :: before ++ w ++ after ++ ['\x7d'])

inductive WrittenItems : List Value → Text → Prop
  | last {v : Value} {w : Text} (h : Written v w) : WrittenItems [v] w
  | cons {v : Value} {vs : List Value} {w space ws : Text} (h : Written v w)
      (hspace : Space space) (hitems : WrittenItems vs ws) :
      WrittenItems (v :: vs) (w ++ ',' :: space ++ ws)

inductive WrittenMembers : List (Value × Value) → Text → Prop
  | last {s k : Text} {v : Value} {gap w : Text} (hkey : IsString s k) (hgap : Space gap)
      (h : Written v w) : WrittenMembers [(.str s, v)] (k ++ ':' :: gap ++ w)
  | cons {s k : Text} {v : Value} {gap w space ws : Text} {es : List (Value × Value)}
      (hkey : IsString s k) (hgap : Space gap) (h : Written v w) (hspace : Space space)
      (hmembers : WrittenMembers es ws) :
      WrittenMembers ((.str s, v) :: es) (k ++ ':' :: gap ++ w ++ ',' :: space ++ ws)

end

/-! ## Marks and space -/

theorem skipSpace_append {s t : Text} (hs : Space s) : skipSpace (s ++ t) = skipSpace t :=
  List.dropWhile_append_of_pos hs

theorem skipSpace_cons {c : Char} {t : Text} (hc : isSpace c = false) :
    skipSpace (c :: t) = c :: t := by
  simp [skipSpace, hc]

def Ends (tail : Text) : Prop :=
  ∀ c, tail.head? = some c → isSpace c = true ∨ c = ',' ∨ c = ']' ∨ c = '\x7d'

theorem ends_nil : Ends [] := by simp [Ends]

theorem ends_cons {c : Char} {tail : Text} (hc : c = ',' ∨ c = ']' ∨ c = '\x7d') :
    Ends (c :: tail) := by
  rintro d ⟨⟩
  exact .inr hc

theorem ends_space {space tail : Text} (hspace : Space space) (htail : Ends tail) :
    Ends (space ++ tail) := by
  cases space with
  | nil => exact htail
  | cons c space =>
      rintro d ⟨⟩
      exact .inl (hspace c (by simp))

/-! ## Numbers -/

theorem readString_isString {s k : Text} (h : IsString s k) (rest : Text) :
    ∃ body, k = '"' :: body ∧ ∀ start, readString start [] (body ++ rest) = .ok (s, rest) := by
  obtain ⟨escape, hescape, rfl⟩ := h
  refine ⟨s.flatMap escape ++ ['"'], rfl, fun start => ?_⟩
  simpa using readString_flatMap hescape start s [] rest

theorem not_word {c : Char} (hc : c.isDigit = true) (s : Text) :
    (words.findSome? fun w => (Text.dropPrefix? w.1 (c :: s)).map fun rest => (w.2, rest)) =
      none := by
  have hne : ∀ d : Char, d.isDigit = false → d ≠ c := by
    rintro d hd rfl
    simp [hc] at hd
  simp [words, Text.dropPrefix?, hne 'n' rfl, hne 't' rfl, hne 'f' rfl, hne 'N' rfl, hne 'I' rfl,
    hne '-' rfl]

theorem not_word_minus {c : Char} (hc : c.isDigit = true) (s : Text) :
    (words.findSome? fun w =>
      (Text.dropPrefix? w.1 ('-' :: c :: s)).map fun rest => (w.2, rest)) = none := by
  have hne : 'I' ≠ c := by
    rintro rfl
    cases hc
  simp [words, Text.dropPrefix?, hne]

variable {tail : Text}

theorem not_digit_of_ends (h : Ends tail) {c : Char} (hc : tail.head? = some c) :
    c.isDigit = false ∧ c ≠ '.' ∧ c ≠ 'e' ∧ c ≠ 'E' := by
  have hmark := h c hc
  simp only [isSpace, Bool.or_eq_true, decide_eq_true_eq, or_assoc] at hmark
  rcases hmark with rfl | rfl | rfl | rfl | rfl | rfl | rfl <;> decide

theorem splitFraction_ends (h : Ends tail) : splitFraction tail = (none, tail) := by
  cases tail with
  | nil => rfl
  | cons c tail =>
      have hc := (not_digit_of_ends h rfl).2.1
      unfold splitFraction
      split
      · next heq =>
          cases heq
          exact absurd rfl hc
      · rfl

theorem splitExponent_ends (h : Ends tail) : splitExponent tail = (none, tail) := by
  cases tail with
  | nil => rfl
  | cons c tail =>
      obtain ⟨-, -, he, hE⟩ := not_digit_of_ends h rfl
      simp [splitExponent, he, hE]

theorem takeWhile_ends (h : Ends tail) : tail.takeWhile Char.isDigit = [] := by
  cases tail with
  | nil => rfl
  | cons c tail => simp [(not_digit_of_ends h rfl).1]

theorem dropWhile_ends (h : Ends tail) : tail.dropWhile Char.isDigit = tail := by
  cases tail with
  | nil => rfl
  | cons c tail => simp [(not_digit_of_ends h rfl).1]

theorem splitWhole?_ofNat (n : Nat) (h : Ends tail) :
    splitWhole? (Text.ofNat n ++ tail) = some (Text.ofNat n, tail) := by
  by_cases hn : n = 0
  · subst hn
    rfl
  · obtain ⟨c, more, hmore, hzero⟩ := Numeral.head_ofNat (Nat.pos_of_ne_zero hn)
    have hdigits : ∀ d ∈ Text.ofNat n, d.isDigit = true := fun d => Numeral.isDigit_ofNat
    have hc : c.isDigit = true := hdigits c (by simp [hmore])
    have htake : (Text.ofNat n ++ tail).takeWhile Char.isDigit = Text.ofNat n := by
      rw [List.takeWhile_append_of_pos hdigits, takeWhile_ends h, List.append_nil]
    have hdrop : (Text.ofNat n ++ tail).dropWhile Char.isDigit = tail := by
      rw [List.dropWhile_append_of_pos hdigits, dropWhile_ends h]
    rw [hmore, List.cons_append] at htake hdrop ⊢
    simp [splitWhole?, hzero, hc, htake, hdrop]

theorem not_tooLong {n : Nat} (hn : n < Nat.pow 10 Numeral.digitLimit) :
    ¬Numeral.digitLimit < (Text.ofNat n).length :=
  Nat.not_lt.mpr (Numeral.length_ofNat_le (by decide) hn)

theorem readNumber_minus {n : Nat} (hn : n < Nat.pow 10 Numeral.digitLimit) (h : Ends tail) :
    readNumber ('-' :: (Text.ofNat n ++ tail)) = .ok (.int (-n), tail) := by
  have hlength := not_tooLong hn
  clear hn
  unfold readNumber
  simp only [splitWhole?_ofNat n h]
  simp only [splitFraction_ends h, splitExponent_ends h]
  simp only [Option.isNone_none, Bool.and_self, ↓reduceIte]
  rw [if_neg hlength, Numeral.digitsValue_ofNat]

theorem readNumber_ofNat {n : Nat} (hn : n < Nat.pow 10 Numeral.digitLimit) (h : Ends tail) :
    readNumber (Text.ofNat n ++ tail) = .ok (.int n, tail) := by
  obtain ⟨c, more, hmore⟩ := List.exists_cons_of_ne_nil (Numeral.ofNat_ne_nil (n := n))
  have hminus : c ≠ '-' := by
    rintro rfl
    cases Numeral.isDigit_ofNat (n := n) (c := '-') (by simp [hmore])
  have hlength := not_tooLong hn
  clear hn
  unfold readNumber
  split
  next negative unsigned heq =>
    split at heq
    · next hcons =>
        rw [hmore] at hcons
        cases hcons
        exact absurd rfl hminus
    · cases heq
      simp only [splitWhole?_ofNat n h]
      simp only [splitFraction_ends h, splitExponent_ends h]
      simp only [Option.isNone_none, Bool.and_self, ↓reduceIte]
      rw [if_neg hlength, Numeral.digitsValue_ofNat]
      rfl

theorem readNumber_ofInt {i : Int} (hi : Short i) (h : Ends tail) :
    readNumber (Text.ofInt i ++ tail) = .ok (.int i, tail) := by
  cases i with
  | ofNat n => exact readNumber_ofNat hi h
  | negSucc n => exact readNumber_minus hi h

theorem readScalar_ofInt {i : Int} (hi : Short i) (h : Ends tail) :
    readScalar (Text.ofInt i ++ tail) = .ok (.int i, tail) := by
  obtain ⟨c, more, hmore⟩ := List.exists_cons_of_ne_nil (Numeral.ofNat_ne_nil (n := i.natAbs))
  have hc : c.isDigit = true := Numeral.isDigit_ofNat (n := i.natAbs) (by simp [hmore])
  have hnone : (words.findSome? fun w =>
      (Text.dropPrefix? w.1 (Text.ofInt i ++ tail)).map fun rest => (w.2, rest)) = none := by
    rw [Text.ofInt_eq, hmore]
    by_cases hneg : i < 0
    · simpa [hneg] using not_word_minus hc (more ++ tail)
    · simpa [hneg] using not_word hc (more ++ tail)
  rw [readScalar, hnone]
  exact readNumber_ofInt hi h

end SourceScan.Json
