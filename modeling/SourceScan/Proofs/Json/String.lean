import SourceScan.Json.Reader
import SourceScan.Json.Writer
import SourceScan.Proofs.Number.Digits

/-!
# Strings of JSON read back

Whatever a character is written as inside a string, the reader takes exactly that and
comes out with the character.  Only the escape of four digits looks at what follows it,
which is never nothing before the closing quote.
-/

namespace SourceScan.Json

theorem hexDigit?_digitChar {d : Nat} (hd : d < 16) : hexDigit? (Nat.digitChar d) = some d := by
  revert d
  decide

theorem exists_unicodeEscape {n : Nat} (hn : n < 0x10000) :
    ∃ a b c d, unicodeEscape n = ['\\', 'u', a, b, c, d] ∧ codeUnit? a b c d = some n := by
  obtain ⟨ds, hds, hlength, hspells⟩ :=
    Text.exists_ofNatPadded (by decide : 1 < 16) (by decide : 0 < 4) hn
  obtain ⟨i, j, k, l, rfl⟩ : ∃ i j k l, ds = [i, j, k, l] := by
    match ds, hlength with
    | [i, j, k, l], _ => exact ⟨i, j, k, l, rfl⟩
  have hlt := hspells.lt_base
  refine ⟨_, _, _, _, by rw [unicodeEscape, hds]; rfl, ?_⟩
  rw [codeUnit?, hexDigit?_digitChar (hlt i (by simp)), hexDigit?_digitChar (hlt j (by simp)),
    hexDigit?_digitChar (hlt k (by simp)), hexDigit?_digitChar (hlt l (by simp))]
  exact congrArg some hspells.value

variable {start : Nat} {out rest : Text}

theorem readString_quote : readString start out ('"' :: rest) = .ok (out.reverse, rest) := by
  rw [readString]

theorem readString_char {c : Char} (hquote : c ≠ '"') (hescape : c ≠ '\\')
    (hcontrol : ¬c.toNat < 0x20) :
    readString start out (c :: rest) = readString start (c :: out) rest := by
  rw [readString.eq_def]
  split
  case h_7 heq =>
    cases heq
    rw [if_neg hcontrol]
  all_goals simp_all

theorem readString_short {e c : Char} (hu : e ≠ 'u') (he : simpleEscape? e = some c) :
    readString start out ('\\' :: e :: rest) = readString start (c :: out) rest := by
  rw [readString.eq_def]
  split
  case h_6 heq =>
    cases heq
    rw [if_neg hu, he]
  case h_7 hother heq =>
    cases heq
    exact absurd rfl (hother e rest rfl)
  all_goals simp_all

/-- An escape that is no first half of a pair stands for its character, whatever comes after it. -/
theorem readString_unit {a b c d : Char} {n : Nat} (hunit : codeUnit? a b c d = some n)
    (hhigh : isHighSurrogate n = false) (hrest : rest ≠ []) :
    readString start out ('\\' :: 'u' :: a :: b :: c :: d :: rest) =
      readString start (charOfUnit n :: out) rest := by
  rw [readString.eq_def]
  split
  case h_4 heq =>
    cases heq
    simp [hunit, hhigh]
  case h_5 heq =>
    cases heq
    cases rest with
    | nil => exact absurd rfl hrest
    | cons x xs => simp [hunit]
  case h_6 hother heq =>
    cases heq
    exact absurd rfl (hother a b c d rest rfl)
  case h_7 hother heq =>
    cases heq
    exact absurd rfl (hother _ _ rfl)
  all_goals simp_all

theorem readString_pair {a b c d e f g h : Char} {high low : Nat}
    (hunit : codeUnit? a b c d = some high) (hhigh : isHighSurrogate high = true)
    (hunit' : codeUnit? e f g h = some low) (hlow : isLowSurrogate low = true)
    (hrest : rest ≠ []) :
    readString start out
        ('\\' :: 'u' :: a :: b :: c :: d :: '\\' :: 'u' :: e :: f :: g :: h :: rest) =
      readString start (charOfPair high low :: out) rest := by
  rw [readString]
  simp [hunit, hhigh, hrest, hunit', hlow]

/-! ## What the writers make of a character -/

variable {c : Char}

def ReadsBack (escape : Char → Text) : Prop :=
  ∀ (start : Nat) (out : Text) (c : Char) (rest : Text), rest ≠ [] →
    readString start out (escape c ++ rest) = readString start (c :: out) rest

theorem exists_shortEscape {e : Text} (h : shortEscape? c = some e) :
    ∃ x, e = ['\\', x] ∧ x ≠ 'u' ∧ simpleEscape? x = some c := by
  unfold shortEscape? at h
  split at h
  all_goals
    cases h
    try exact ⟨_, rfl, by decide, rfl⟩

theorem plain_of_shortEscape (h : shortEscape? c = none) : c ≠ '"' ∧ c ≠ '\\' := by
  constructor
  · rintro rfl
    cases h
  · rintro rfl
    cases h

theorem not_surrogate (c : Char) :
    isHighSurrogate c.toNat = false ∧ isLowSurrogate c.toNat = false := by
  have hvalid : c.toNat < 0xD800 ∨ 0xDFFF < c.toNat ∧ c.toNat < 0x110000 := c.valid
  simp only [isHighSurrogate, isLowSurrogate, Bool.and_eq_false_iff, decide_eq_false_iff_not]
  omega

theorem charOfUnit_toNat (c : Char) : charOfUnit c.toNat = c := by
  simp [charOfUnit, not_surrogate c, Char.ofNat_toNat]

theorem readString_shortEscape {e : Text} {start : Nat} {out rest : Text}
    (h : shortEscape? c = some e) :
    readString start out (e ++ rest) = readString start (c :: out) rest := by
  obtain ⟨x, rfl, hu, hx⟩ := exists_shortEscape h
  exact readString_short hu hx

theorem readString_unicodeEscape {start : Nat} {out rest : Text} (hc : c.toNat < 0x10000)
    (hrest : rest ≠ []) :
    readString start out (unicodeEscape c.toNat ++ rest) = readString start (c :: out) rest := by
  obtain ⟨a, b, d, e, hescape, hunit⟩ := exists_unicodeEscape hc
  rw [hescape]
  refine (readString_unit hunit (not_surrogate c).1 hrest).trans ?_
  rw [charOfUnit_toNat]

theorem readString_pairEscape {start : Nat} {out rest : Text} (hc : 0x10000 ≤ c.toNat)
    (hrest : rest ≠ []) :
    readString start out (pairEscape c ++ rest) = readString start (c :: out) rest := by
  have hlt : c.toNat < 0x110000 := by
    have hvalid : c.toNat < 0xD800 ∨ 0xDFFF < c.toNat ∧ c.toNat < 0x110000 := c.valid
    omega
  have hhigh : 0xD800 + (c.toNat - 0x10000) / 0x400 < 0xDC00 := by omega
  have hlow : 0xDC00 + (c.toNat - 0x10000) % 0x400 < 0xE000 := by omega
  obtain ⟨a, b, d, e, hescape, hunit⟩ := exists_unicodeEscape (Nat.lt_trans hhigh (by decide))
  obtain ⟨a', b', d', e', hescape', hunit'⟩ := exists_unicodeEscape (Nat.lt_trans hlow (by decide))
  have hpair : charOfPair (0xD800 + (c.toNat - 0x10000) / 0x400)
      (0xDC00 + (c.toNat - 0x10000) % 0x400) = c := by
    rw [charOfPair]
    have hsum : 0x10000 + (0xD800 + (c.toNat - 0x10000) / 0x400 - 0xD800) * 0x400 +
        (0xDC00 + (c.toNat - 0x10000) % 0x400 - 0xDC00) = c.toNat := by omega
    rw [hsum, Char.ofNat_toNat]
  rw [pairEscape, hescape, hescape']
  refine (readString_pair hunit ?_ hunit' ?_ hrest).trans (by rw [hpair])
  · simpa [isHighSurrogate] using hhigh
  · simpa [isLowSurrogate] using hlow

theorem readsBack_wideChar : ReadsBack wideChar := by
  intro start out c rest hrest
  unfold wideChar
  cases hshort : shortEscape? c with
  | some e => exact readString_shortEscape hshort
  | none =>
      obtain ⟨hquote, hescape⟩ := plain_of_shortEscape hshort
      by_cases hcontrol : c.toNat < 0x20
      · simpa [hcontrol] using readString_unicodeEscape (by omega) hrest
      · simpa [hcontrol] using readString_char hquote hescape hcontrol

theorem readsBack_asciiChar : ReadsBack asciiChar := by
  intro start out c rest hrest
  unfold asciiChar
  cases hshort : shortEscape? c with
  | some e => exact readString_shortEscape hshort
  | none =>
      obtain ⟨hquote, hescape⟩ := plain_of_shortEscape hshort
      dsimp only [Option.getD_none]
      split
      · next hplain =>
          have hcontrol : ¬c.toNat < 0x20 := by
            simp only [Bool.and_eq_true, decide_eq_true_eq] at hplain
            omega
          exact readString_char hquote hescape hcontrol
      · split
        · next hunit => exact readString_unicodeEscape hunit hrest
        · next hpair => exact readString_pairEscape (Nat.not_lt.mp hpair) hrest

theorem readString_flatMap {escape : Char → Text} (h : ReadsBack escape) (start : Nat)
    (s : Text) : ∀ out rest : Text,
      readString start out (s.flatMap escape ++ '"' :: rest) = .ok (out.reverse ++ s, rest) := by
  induction s with
  | nil => intro out rest; simpa using readString_quote
  | cons c s ih =>
      intro out rest
      rw [List.flatMap_cons, List.append_assoc, h start out c _ (by simp), ih]
      simp

end SourceScan.Json
