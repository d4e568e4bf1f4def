import SourceScan.Proofs.Number.Digits
import SourceScan.Proofs.Rule.Spelling
import SourceScan.Proofs.Yaml.Clean
import SourceScan.Yaml.Style
import SourceScan.Yaml.Values

/-!
# Integers in YAML

The digits of an integer are plain, are taken for an integer and read back as it.
-/

namespace SourceScan

open Text (ofNat_forall ofInt_forall)

variable {c : Char} {n : Nat} {i : Int} {s : Text}

namespace Numeral

theorem bare?_ofNat (n : Nat) : bare? (Text.ofNat n) = some (Text.ofNat n) := by
  have htrim : Text.trim isMargin (Text.ofNat n) = Text.ofNat n := by
    have hmargin : ∀ c ∈ Text.ofNat n, isMargin c = false := ofNat_forall (by decide)
    rw [Text.trim_eq_self_iff]
    exact ⟨fun c hc => hmargin c (List.mem_of_mem_head? hc),
      fun c hc => hmargin c (List.mem_of_getLast? hc)⟩
  have hplain : plainDigits (Text.ofNat n) = Text.ofNat n := by
    refine (List.map_congr_left ?_).trans (List.map_id _)
    exact ofNat_forall (by decide)
  have hdrop : ∀ (s : Text) (last : Option Char), (∀ c ∈ s, c ≠ '_') → last ≠ some '_' →
      dropSeparators?.go last s = some s := by
    intro s
    induction s with
    | nil =>
        intro last _ hlast
        rw [dropSeparators?.go, if_neg hlast]
    | cons c s ih =>
        intro last hs hlast
        have hc := hs c (by simp)
        rw [dropSeparators?.go, if_neg hc, if_neg (by simp [hlast]),
          ih (some c) (fun d hd => hs d (by simp [hd])) (by simpa using hc)]
        rfl
  rw [bare?, htrim, hplain]
  exact hdrop _ none (ofNat_forall (by decide)) (by simp)

theorem splitSign_ofNat (n : Nat) : splitSign (Text.ofNat n) = (false, Text.ofNat n) := by
  have hdigits : ∀ c ∈ Text.ofNat n, c ≠ '-' ∧ c ≠ '+' := ofNat_forall (by decide)
  rw [splitSign.eq_def]
  split
  · next h => exact absurd rfl (hdigits '-' (by simp [h])).1
  · next h => exact absurd rfl (hdigits '+' (by simp [h])).2
  · rfl

theorem readInt_ofNat (h : n < Nat.pow 10 digitLimit) : readInt (Text.ofNat n) = .ok n := by
  have hlength : (Text.ofNat n).length ≤ digitLimit := length_ofNat_le (by decide) h
  have hdigits : (Text.ofNat n).all Char.isDigit = true := by
    rw [List.all_eq_true]
    exact fun c hc => isDigit_ofNat hc
  have hempty : (Text.ofNat n).isEmpty = false := by simpa using ofNat_ne_nil (n := n)
  rw [readInt, bare?_ofNat]
  simp only [splitSign_ofNat, hempty, hdigits]
  rw [if_neg (by decide), if_neg (Nat.not_lt.mpr hlength), digitsValue_ofNat]
  rfl

end Numeral

namespace Yaml

theorem ofNat_cases (n : Nat) : Text.ofNat n = ['0'] ∨
    ∃ c more, Text.ofNat n = c :: more ∧ isPositiveDigit c = true ∧ c ≠ '0' := by
  by_cases hn : 0 < n
  · obtain ⟨c, more, hmore, hc⟩ := Numeral.head_ofNat hn
    have hdigit : c.isDigit = true := Numeral.isDigit_ofNat (n := n) (by simp [hmore])
    exact .inr ⟨c, more, hmore, by simp [isPositiveDigit, hdigit, hc], hc⟩
  · obtain rfl : n = 0 := by omega
    exact .inl rfl

theorem splitOn_ofNat (n : Nat) : Text.splitOn ':' (Text.ofNat n) = [Text.ofNat n] := by
  have hcolon : ∀ c ∈ Text.ofNat n, c ≠ ':' := ofNat_forall (by decide)
  have hnot : ∀ s ∈ [Text.ofNat n], ':' ∉ s := fun s hs hmem =>
    hcolon ':' (by rwa [List.mem_singleton.mp hs] at hmem) rfl
  have hsplit := List.splitOn_intercalate ':' hnot (by simp)
  rw [Text.splitOn_eq]
  simpa using hsplit

theorem isUnsignedInt_ofNat (n : Nat) : isUnsignedInt (Text.ofNat n) = true := by
  rcases ofNat_cases n with hzero | ⟨c, more, hmore, hpositive, hc⟩
  · rw [hzero]
    rfl
  · have hsplit := splitOn_ofNat n
    have hdigits : ∀ d ∈ Text.ofNat n, isDigitOrLine d = true := ofNat_forall (by decide)
    rw [hmore] at hsplit hdigits ⊢
    have hall : ∀ d ∈ more, isDigitOrLine d = true := fun d hd => hdigits d (by simp [hd])
    have hother : ∀ r, c :: more ≠ '0' :: r := by
      rintro r ⟨⟩
      exact hc rfl
    rw [isUnsignedInt, hsplit]
    · simp only [startsWith, hpositive, List.all_eq_true.mpr hall]
      simp
    · exact fun r => hother _
    · exact fun r => hother _
    · exact hother

theorem splitSign_ofInt (i : Int) : (Numeral.splitSign (Text.ofInt i)).2 = Text.ofNat i.natAbs := by
  rw [Text.ofInt_eq]
  by_cases hneg : i < 0
  · rw [if_pos hneg]
    rfl
  · rw [if_neg hneg, List.nil_append, Numeral.splitSign_ofNat]

theorem not_mem_words {words : List Text}
    (hwords : (words.all fun w => w.head?.any fun c => !c.isDigit && c != '-') = true) :
    words.contains (Text.ofInt i) = false := by
  rw [List.contains_eq_mem, decide_eq_false_iff_not]
  intro hmem
  obtain ⟨c, hc, hother⟩ := (Option.any_eq_true _ _).mp (List.all_eq_true.mp hwords _ hmem)
  have hall : ∀ c ∈ Text.ofInt i, c.isDigit = true ∨ c = '-' :=
    ofInt_forall (by decide) (.inr rfl)
  rcases hall c (List.mem_of_mem_head? hc) with h | h
  · rw [h] at hother
    cases hother
  · rw [h] at hother
    revert hother
    decide

theorem cutWhere_eq_none {p : Char → Bool} (h : ∀ c ∈ s, p c = false) :
    Text.cutWhere p s = none := by
  induction s with
  | nil => rfl
  | cons c s ih =>
      rw [Text.cutWhere, if_neg (by simp [h c (by simp)]), ih fun d hd => h d (by simp [hd])]
      rfl

theorem isFloat_ofInt (i : Int) : isFloat (Text.ofInt i) = false := by
  have hdot : ∀ c ∈ Text.ofInt i, c ≠ '.' := ofInt_forall (by decide) (by decide)
  have hcut : Text.cutWhere (· = '.') (Text.ofNat i.natAbs) = none :=
    cutWhere_eq_none (ofNat_forall (by decide))
  have hinf : infinityWords.contains (Text.ofNat i.natAbs) = false :=
    not_mem_words (i := (i.natAbs : Int)) (by cbv)
  rw [isFloat, not_mem_words (by cbv), splitSign_ofInt, hinf]
  · simp only [hcut, Bool.or_false]
  · intro c more h
    exact hdot '.' (by simp [h]) rfl

theorem ofPlain_ofInt (i : Int) : Tag.ofPlain (Text.ofInt i) = .int := by
  have hint : isInt (Text.ofInt i) = true := by
    rw [isInt, splitSign_ofInt, isUnsignedInt_ofNat]
  rw [Tag.ofPlain, not_mem_words (by cbv), not_mem_words (by cbv),
    isFloat_ofInt, hint]
  rfl

/-! ## Reading an integer back -/

theorem withoutLines_ofInt (i : Int) : withoutLines (Text.ofInt i) = Text.ofInt i := by
  have hline : ∀ c ∈ Text.ofInt i, c ≠ '_' := ofInt_forall (by decide) (by decide)
  exact List.filter_eq_self.mpr fun c hc => by simpa using hline c hc

theorem unsignedInt_ofNat (h : n < Nat.pow 10 Numeral.digitLimit) :
    unsignedInt (Text.ofNat n) = .ok n := by
  rcases ofNat_cases n with hzero | ⟨c, more, hmore, -, hc⟩
  · have hn : n = 0 := by
      rw [← Numeral.digitsValue_ofNat n, hzero]
      rfl
    rw [hzero, hn]
    rfl
  · have hcolon : ∀ d ∈ Text.ofNat n, d ≠ ':' := ofNat_forall (by decide)
    have hnone : (Text.ofNat n).contains ':' = false := by
      rw [List.contains_eq_mem, decide_eq_false_iff_not]
      exact fun hmem => hcolon ':' hmem rfl
    have hread : decimalInt (Text.ofNat n) = .ok n := by
      rw [decimalInt, Numeral.readInt_ofNat h]
    have hother : ∀ r, Text.ofNat n ≠ '0' :: r := by
      rw [hmore]
      rintro r ⟨⟩
      exact hc rfl
    rw [unsignedInt, hnone, hread]
    · rfl
    · exact Numeral.ofNat_ne_nil
    · exact hother _
    · exact fun r => hother _
    · exact fun r => hother _
    · exact hother

theorem readInt_ofInt (h : i.natAbs < Nat.pow 10 Numeral.digitLimit) :
    readInt (Text.ofInt i) = .ok i := by
  have hread := unsignedInt_ofNat h
  rw [readInt, withoutLines_ofInt, Text.ofInt_eq]
  by_cases hneg : i < 0
  · have hback : -(i.natAbs : Int) = i := by omega
    rw [if_pos hneg]
    change (unsignedInt (Text.ofNat i.natAbs)).map (fun n => -n) = .ok i
    rw [hread, Except.map, hback]
  · have hback : (i.natAbs : Int) = i := by omega
    have hdigits : ∀ c ∈ Text.ofNat i.natAbs, c ≠ '-' ∧ c ≠ '+' := ofNat_forall (by decide)
    rw [if_neg hneg, List.nil_append]
    split
    · next hnil => exact absurd hnil Numeral.ofNat_ne_nil
    · next hsign => exact absurd rfl (hdigits '-' (by simp [hsign])).1
    · next hsign => exact absurd rfl (hdigits '+' (by simp [hsign])).2
    · rw [hread, hback]

/-! ## Writing an integer plain -/

def isBare (c : Char) : Bool :=
  !isSpecial false c && !isSpaceOrBreak c && !(c = ':' || c = '?' || c = '.') &&
    !leadingMarks.contains c

structure IsBare (c : Char) : Prop where
  not_special : ∀ wide, isSpecial wide c = false
  not_spaceOrBreak : isSpaceOrBreak c = false
  not_mark : c ≠ ':' ∧ c ≠ '?' ∧ c ≠ '.'
  not_leading : leadingMarks.contains c = false

theorem isSpecial_mono {wide : Bool} (h : isSpecial false c = false) :
    isSpecial wide c = false := by
  simp only [isSpecial, Bool.not_eq_false', Bool.false_and, Bool.or_false] at h ⊢
  rw [h, Bool.true_or]

theorem IsBare.of_isBare (h : isBare c = true) : IsBare c := by
  simp only [isBare, Bool.and_eq_true, Bool.not_eq_true', Bool.or_eq_false_iff,
    decide_eq_false_iff_not] at h
  obtain ⟨⟨⟨hspecial, hblank⟩, ⟨hcolon, hquery⟩, hdot⟩, hleading⟩ := h
  exact ⟨fun _ => isSpecial_mono hspecial, hblank, ⟨hcolon, hquery, hdot⟩, hleading⟩

namespace IsBare

theorem not_break (h : IsBare c) : isWrittenBreak c = false :=
  (Bool.or_eq_false_iff.mp h.not_spaceOrBreak).2

theorem not_space (h : IsBare c) : c ≠ ' ' :=
  of_decide_eq_false (Bool.or_eq_false_iff.mp h.not_spaceOrBreak).1

theorem not_hash (h : IsBare c) : c ≠ '#' := by
  rintro rfl
  have := h.not_leading
  revert this
  decide

end IsBare

theorem hasPair_eq_false {q r : Char → Bool} (h : ∀ c ∈ s, q c = false) :
    hasPair q r s = false := by
  induction s with
  | nil => rfl
  | cons c s ih =>
      have ih := ih fun d hd => h d (by simp [hd])
      cases s with
      | nil => rfl
      | cons d s =>
          rw [hasPair, h c (by simp), ih]
          rfl

theorem hasInnerMark_eq_false (h : ∀ c ∈ s, c ≠ ':' ∧ c ≠ '#') : hasInnerMark s = false := by
  induction s with
  | nil => rfl
  | cons c s ih =>
      have ih := ih fun d hd => h d (by simp [hd])
      cases s with
      | nil => rfl
      | cons d s =>
          have hd := h d (by simp)
          rw [hasInnerMark, ih]
          simp [hd]

theorem hasMark_of_bare (h : ∀ c ∈ s, IsBare c)
    (hminus : ∀ more, s = '-' :: more → ∃ c rest, more = c :: rest ∧ IsBare c ∧ c ≠ '-') :
    hasMark s = false := by
  have hinner : hasInnerMark s = false :=
    hasInnerMark_eq_false fun c hc => ⟨(h c hc).not_mark.1, (h c hc).not_hash⟩
  cases s with
  | nil => rfl
  | cons c s =>
      obtain ⟨hcolon, hquery, hdot⟩ := (h c (by simp)).not_mark
      have hdots : ("..." : Text).isPrefixOf (c :: s) = false := by
        simp [List.isPrefixOf, hdot.symm]
      have hleading := (h c (by simp)).not_leading
      by_cases hc : c = '-'
      · obtain ⟨d, rest, rfl, hbare, hd⟩ := hminus s (by rw [hc])
        have hdashes : ("---" : Text).isPrefixOf (c :: d :: rest) = false := by
          simp [List.isPrefixOf, hd.symm]
        have hset : setsOff d = false :=
          isBlankOrEnd_of_not_special (hbare.not_special false) hbare.not_break hbare.not_space
        rw [hasMark, hinner, hdots, hdashes, hasLeadingMark, hleading, List.head?_cons,
          Option.all_some, hset]
        simp
      · have hdashes : ("---" : Text).isPrefixOf (c :: s) = false := by
          simp [List.isPrefixOf, Ne.symm hc]
        rw [hasMark, hinner, hdots, hdashes, hasLeadingMark, hleading]
        simp [hc, hcolon, hquery]

theorem canBePlain_of_bare (wide : Bool) (h : ∀ c ∈ s, IsBare c)
    (hminus : ∀ more, s = '-' :: more → ∃ c rest, more = c :: rest ∧ IsBare c ∧ c ≠ '-') :
    canBePlain wide s = true := by
  have hspecial : s.any (isSpecial wide) = false :=
    List.any_eq_false.mpr fun c hc => by simp [(h c hc).not_special wide]
  have hmulti : isMultiline s = false :=
    List.any_eq_false.mpr fun c hc => by simp [(h c hc).not_break]
  have hedge : ∀ o : Option Char, (∀ c, o = some c → c ∈ s) → o.any isSpaceOrBreak = false := by
    intro o ho
    cases o with
    | none => rfl
    | some c => exact (h c (ho c rfl)).not_spaceOrBreak
  have hbreaks := hasPair_eq_false (r := (· = ' ')) fun c hc => (h c hc).not_break
  have hspaces := hasPair_eq_false (s := s) (q := (· = ' ')) (r := isWrittenBreak)
    fun c hc => by simp [(h c hc).not_space]
  simp [canBePlain, canBeSingleQuoted, hspecial, hmulti, hedge _ fun _ => List.mem_of_mem_head?,
    hedge _ fun _ => List.mem_of_getLast?, hasMark_of_bare h hminus,
    hbreaks, hspaces]

theorem canBePlain_ofInt (wide : Bool) (i : Int) : canBePlain wide (Text.ofInt i) = true := by
  have hbare : ∀ c ∈ Text.ofInt i, isBare c = true := ofInt_forall (by decide) (by decide)
  refine canBePlain_of_bare wide (fun c hc => .of_isBare (hbare c hc)) fun more hmore => ?_
  have hdigits : ∀ c ∈ Text.ofNat i.natAbs, isBare c = true ∧ c ≠ '-' := ofNat_forall (by decide)
  obtain ⟨c, rest, hrest⟩ := List.exists_cons_of_ne_nil (Numeral.ofNat_ne_nil (n := i.natAbs))
  rw [hrest] at hdigits
  obtain ⟨hc, hother⟩ := hdigits c (by simp)
  rw [Text.ofInt_eq, hrest] at hmore
  split at hmore
  · exact ⟨c, rest, (List.cons.inj hmore).2.symm, .of_isBare hc, hother⟩
  · exact absurd (List.cons.inj hmore).1 hother

end Yaml

end SourceScan
