import SourceScan.Proofs.Number.Digits
import SourceScan.Proofs.Yaml.Quoted

/-!
# Characters that are written as they are

What the classes of the writer mean to the reader: a character that is no special one may
stand in a text, ends no line unless it is a written break, and is no blank but the space.
-/

namespace SourceScan.Yaml

variable {wide : Bool} {ch : Char} {e : Text} {n : Nat}

structure IsClean (wide : Bool) (ch : Char) : Prop where
  allowed : isAllowed ch = true
  not_return : ch ≠ '\r'
  narrow : wide = false → ch.toNat < 0x80

theorem not_special (h : isSpecial wide ch = false) :
    ch = '\n' ∨ (0x20 ≤ ch.toNat ∧ ch.toNat ≤ 0x7E) ∨ wide = true ∧ (ch.toNat = 0x85 ∨
      (0xA0 ≤ ch.toNat ∧ ch.toNat ≤ 0xD7FF) ∨ (0xE000 ≤ ch.toNat ∧ ch.toNat ≤ 0xFEFE) ∨
        (0xFF00 ≤ ch.toNat ∧ ch.toNat ≤ 0xFFFD) ∨
          0x10000 ≤ ch.toNat ∧ ch.toNat ≤ 0x10FFFE) := by
  simp only [isSpecial, inRanges, List.any_cons, List.any_nil, Bool.not_eq_false', Bool.or_eq_true,
    Bool.and_eq_true, decide_eq_true_eq, Bool.or_false] at h
  rcases h with (h | h) | ⟨hwide, h⟩
  · exact .inl h
  · exact .inr (.inl h)
  · exact .inr (.inr ⟨hwide, by omega⟩)

theorem stays_in_double (h : staysInDouble wide ch = true) :
    ch ∉ ['"', '\\', '\x85', '\u2028', '\u2029', '\uFEFF'] ∧
      ((0x20 ≤ ch.toNat ∧ ch.toNat ≤ 0x7E) ∨ wide = true ∧
        ((0xA0 ≤ ch.toNat ∧ ch.toNat ≤ 0xD7FF) ∨ (0xE000 ≤ ch.toNat ∧ ch.toNat ≤ 0xFFFD))) := by
  simp only [staysInDouble, inRanges, List.any_cons, List.any_nil, Bool.not_eq_true',
    Bool.or_eq_true, Bool.and_eq_true, decide_eq_true_eq, Bool.or_false, List.contains_eq_mem,
    decide_eq_false_iff_not] at h
  exact h

theorem isClean_of_toNat (h : (0x20 ≤ ch.toNat ∧ ch.toNat ≤ 0x7E) ∨
      wide = true ∧ (ch.toNat = 0x85 ∨ (0xA0 ≤ ch.toNat ∧ ch.toNat ≤ 0xD7FF) ∨
        (0xE000 ≤ ch.toNat ∧ ch.toNat ≤ 0xFFFD) ∨
          0x10000 ≤ ch.toNat ∧ ch.toNat ≤ 0x10FFFF)) : IsClean wide ch := by
  refine ⟨?_, ?_, ?_⟩
  · simp only [isAllowed, inRanges, List.any_cons, List.any_nil, Bool.or_eq_true,
      Bool.and_eq_true, decide_eq_true_eq, Bool.or_false]
    omega
  · rintro rfl
    have : '\r'.toNat = 0xD := rfl
    omega
  · rintro rfl
    simp only [Bool.false_eq_true, false_and, or_false] at h
    omega

theorem isClean_of_not_special (h : isSpecial wide ch = false) : IsClean wide ch := by
  rcases not_special h with rfl | h | ⟨hwide, h⟩
  · exact ⟨by decide, by decide, fun _ => by decide⟩
  · exact isClean_of_toNat (.inl h)
  · exact isClean_of_toNat (.inr ⟨hwide, by omega⟩)

theorem isClean_of_staysInDouble (h : staysInDouble wide ch = true) : IsClean wide ch := by
  obtain ⟨-, h⟩ := stays_in_double h
  rcases h with h | ⟨hwide, h⟩
  · exact isClean_of_toNat (.inl h)
  · exact isClean_of_toNat (.inr ⟨hwide, by omega⟩)

theorem ne_of_not_special (h : isSpecial wide ch = false) :
    ch ∉ ['\r', '\t', '\x00', '\uFEFF'] := by
  intro hmem
  have htable : ['\r', '\t', '\x00', '\uFEFF'].all (isSpecial wide) = true := by
    cases wide <;> decide
  rw [List.all_eq_true.mp htable ch hmem] at h
  cases h

theorem isFlat_of_not_special (h : isSpecial wide ch = false) (hbreak : isWrittenBreak ch = false) :
    IsFlat ch := by
  have hother := ne_of_not_special h
  simp only [List.mem_cons, List.not_mem_nil, not_or] at hother
  refine ⟨?_, hother.2.2.2.1⟩
  simp only [isWrittenBreak, Bool.or_eq_false_iff, decide_eq_false_iff_not] at hbreak
  simp [isBreak, hother, hbreak]

theorem isBlankOrEnd_of_not_special (h : isSpecial wide ch = false)
    (hbreak : isWrittenBreak ch = false) (hspace : ch ≠ ' ') : isBlankOrEnd ch = false := by
  have hother := ne_of_not_special h
  simp only [List.mem_cons, List.not_mem_nil, not_or] at hother
  have hflat := (isFlat_of_not_special h hbreak).1
  simp [isBlankOrEnd, isSpaceOrEnd, isBreakOrEnd, isEnd, hother, hspace, hflat]

theorem isFlat_of_staysInDouble (h : staysInDouble wide ch = true) :
    IsFlat ch ∧ (ch ≠ ' ' → isBlankOrEnd ch = false) := by
  obtain ⟨hmarks, hrange⟩ := stays_in_double h
  simp only [List.mem_cons, List.not_mem_nil, not_or] at hmarks
  have hlow : ∀ d : Char, d.toNat < 0x20 → ch ≠ d := by
    rintro d hd rfl
    omega
  have hcontrol : ch ≠ '\r' ∧ ch ≠ '\n' ∧ ch ≠ '\t' ∧ ch ≠ '\x00' :=
    ⟨hlow _ (by decide), hlow _ (by decide), hlow _ (by decide), hlow _ (by decide)⟩
  have hflat : isBreak ch = false := by simp [isBreak, hcontrol, hmarks]
  refine ⟨⟨hflat, hmarks.2.2.2.2.2.1⟩, fun hspace => ?_⟩
  simp [isBlankOrEnd, isSpaceOrEnd, isBreakOrEnd, isEnd, hcontrol, hspace, hflat]

/-! ## Escapes -/

def IsSober (ch : Char) : Prop := 0x20 < ch.toNat ∧ ch.toNat ≤ 0x7E

theorem isClean_of_isSober (h : IsSober ch) : IsClean wide ch :=
  isClean_of_toNat (.inl ⟨Nat.le_of_lt h.1, h.2⟩)

theorem isFlat_of_isSober (h : IsSober ch) : IsFlat ch := by
  have hspecial : isSpecial false ch = false := by
    have hle := Nat.le_of_lt h.1
    simp [isSpecial, inRanges, hle, h.2]
  refine isFlat_of_not_special hspecial ?_
  have htable : ∀ d, isWrittenBreak d = true → ¬IsSober d := by
    intro d hd
    simp only [isWrittenBreak, Bool.or_eq_true, decide_eq_true_eq] at hd
    rcases hd with ((rfl | rfl) | rfl) | rfl <;> (rintro ⟨hlow, hhigh⟩; revert hlow hhigh; decide)
  exact Bool.eq_false_iff.mpr fun hbreak => htable ch hbreak h

theorem hexDigit?_upper {d : Nat} (hd : d < 16) :
    hexDigit? (Nat.digitChar d).toUpper = some d ∧
      0x20 < (Nat.digitChar d).toUpper.toNat ∧ (Nat.digitChar d).toUpper.toNat ≤ 0x7E := by
  revert d
  decide

theorem filterMap_hexDigit? {ds : List Nat} (h : ∀ d ∈ ds, d < 16) :
    (ds.map fun d => (Nat.digitChar d).toUpper).filterMap hexDigit? = ds := by
  induction ds with
  | nil => rfl
  | cons d ds ih =>
      rw [List.map_cons, List.filterMap_cons_some (hexDigit?_upper (h d (by simp))).1,
        ih fun e he => h e (by simp [he])]

theorem exists_hexDigits {width : Nat} (hwidth : 0 < width) (hn : n < Nat.pow 16 width) :
    ∃ ds, Text.asciiUpper (Text.ofNatPadded 16 width n) = ds ∧ ds.length = width ∧
      (ds.filterMap hexDigit?).length = ds.length ∧
      Numeral.ofDigits 16 (ds.filterMap hexDigit?) = n ∧ ∀ ch ∈ ds, IsSober ch := by
  obtain ⟨ds, hds, hlength, hspells⟩ := Text.exists_ofNatPadded (by decide : 1 < 16) hwidth hn
  have hback := filterMap_hexDigit? hspells.lt_base
  have hupper : Text.asciiUpper (Text.ofNatPadded 16 width n) =
      ds.map fun d => (Nat.digitChar d).toUpper := by
    rw [Text.asciiUpper, hds, List.map_map]
    rfl
  refine ⟨_, hupper, by simpa using hlength, by rw [hback]; simp, by rw [hback, hspells.value], ?_⟩
  intro ch hch
  obtain ⟨d, hd, rfl⟩ := List.mem_map.mp hch
  exact (hexDigit?_upper (hspells.lt_base d hd)).2

theorem charOfCode_toNat (ch : Char) : charOfCode ch.toNat = .ok ch := by
  have hvalid : ch.toNat < 0xD800 ∨ 0xDFFF < ch.toNat ∧ ch.toNat < 0x110000 := ch.valid
  rw [charOfCode, if_neg (by omega), if_neg (by omega), if_neg (by simp; omega), Char.ofNat_toNat]

theorem isEscape_numericEscape (ch : Char) :
    IsEscape ch (numericEscape ch.toNat) ∧ ∀ d ∈ numericEscape ch.toNat, IsSober d := by
  have hvalid : ch.toNat < 0xD800 ∨ 0xDFFF < ch.toNat ∧ ch.toNat < 0x110000 := ch.valid
  have hcase : ∃ x width, numericEscape ch.toNat =
      '\\' :: x :: Text.asciiUpper (Text.ofNatPadded 16 width ch.toNat) ∧ 0 < width ∧
        ch.toNat < Nat.pow 16 width ∧ escaped? x = none ∧ codeDigits? x = some width ∧
          IsSober x := by
    rw [numericEscape]
    split
    · exact ⟨'x', 2, rfl, by decide, by omega, rfl, rfl, by decide, by decide⟩
    · split
      · exact ⟨'u', 4, rfl, by decide, by omega, rfl, rfl, by decide, by decide⟩
      · have hpow : 0x110000 ≤ Nat.pow 16 8 := by decide
        exact ⟨'U', 8, rfl, by decide, by omega, rfl, rfl, by decide, by decide⟩
  obtain ⟨x, width, heq, hwidth, hlt, hescaped, hdigits, hx⟩ := hcase
  obtain ⟨ds, hds, hlength, hall, hvalue, hsober⟩ := exists_hexDigits hwidth hlt
  rw [heq, hds]
  refine ⟨.inr ⟨x, ds, rfl, hescaped, by rw [hlength, hdigits], hall, ?_⟩, ?_⟩
  · rw [hvalue, charOfCode_toNat]
  · intro d hd
    rcases List.mem_cons.mp hd with rfl | hd
    · exact ⟨by decide, by decide⟩
    · rcases List.mem_cons.mp hd with rfl | hd
      · exact hx
      · exact hsober d hd

theorem isEscape_shortEscape {x : Char} (h : shortEscape? ch = some x) :
    escaped? x = some ch ∧ IsSober x := by
  unfold shortEscape? at h
  split at h
  all_goals
    cases h
    try exact ⟨rfl, by decide, by decide⟩

theorem isEscape_of_escape? (h : escape? wide (.char ch) = some e) :
    IsEscape ch e ∧ ∀ d ∈ e, IsSober d := by
  rw [escape?] at h
  split at h
  · cases h
  · split at h
    · next x hx =>
        cases h
        obtain ⟨hescaped, hsober⟩ := isEscape_shortEscape hx
        refine ⟨.inl ⟨x, rfl, hescaped⟩, ?_⟩
        intro d hd
        simp only [List.mem_cons, List.not_mem_nil, or_false] at hd
        rcases hd with rfl | rfl
        · exact ⟨by decide, by decide⟩
        · exact hsober
    · cases h
      exact isEscape_numericEscape ch

theorem escape?_eq_none (h : escape? wide (.char ch) = none) : staysInDouble wide ch = true := by
  rw [escape?] at h
  split at h
  · assumption
  · split at h <;> cases h

end SourceScan.Yaml
