import Mathlib
import SourceScan.Number.Binary64

/-!
# Exact values

The value of a finite number is a rational one.  A comparison compares the values, and a
sum that is the value of some number is computed without rounding.
-/

namespace SourceScan.Binary64

def toRat? (x : Binary64) : Option ℚ := x.ratio?.map fun r => r.1 / r.2

/-- The rational is the value of a number within the bounds of the format. -/
def Representable (q : ℚ) : Prop :=
  ∃ negative significand exponent, significand < 2 ^ 53 ∧ leastExponent ≤ exponent ∧
    exponent ≤ greatestExponent ∧ (finite negative significand exponent).toRat? = some q

def signed (negative : Bool) (q : ℚ) : ℚ := if negative then -q else q

theorem ratio?_finite (negative : Bool) (m : Nat) (e : Int) :
    (finite negative m e).ratio? =
      some (if negative then -((m * 2 ^ e.toNat : Nat) : Int) else (m * 2 ^ e.toNat : Nat),
        2 ^ (-e).toNat) := by
  unfold ratio?
  by_cases he : 0 ≤ e
  · have hzero : (-e).toNat = 0 := by omega
    simp [he, hzero]
  · have hzero : e.toNat = 0 := by omega
    simp [he, hzero]

theorem toRat?_finite (negative : Bool) (m : Nat) (e : Int) :
    (finite negative m e).toRat? = some (signed negative (m * 2 ^ e)) := by
  have hpow : (m : ℚ) * 2 ^ e = (m * 2 ^ e.toNat) / 2 ^ (-e).toNat := by
    rw [eq_div_iff (by positivity), mul_assoc, ← zpow_natCast, ← zpow_natCast,
      ← zpow_add₀ two_ne_zero]
    congr 2
    omega
  rw [toRat?, ratio?_finite, hpow, signed]
  cases negative <;> simp [neg_div]

theorem exists_ratio {x : Binary64} {q : ℚ} (h : x.toRat? = some q) :
    ∃ negative m e n d, x = finite negative m e ∧ x.ratio? = some (n, d) ∧ 0 < d ∧
      q = (n : ℚ) / (d : ℚ) := by
  cases x with
  | nan => cases h
  | infinite negative => cases h
  | finite negative m e =>
      rw [toRat?, ratio?_finite] at h
      exact ⟨negative, m, e, _, _, rfl, ratio?_finite negative m e, Nat.pow_pos Nat.two_pos,
        (Option.some.inj h).symm⟩

theorem lt_iff {x y : Binary64} {p q : ℚ} (hx : x.toRat? = some p) (hy : y.toRat? = some q) :
    x.lt y = true ↔ p < q := by
  obtain ⟨s, m, e, n, d, rfl, hratio, hd, rfl⟩ := exists_ratio hx
  obtain ⟨s', m', e', n', d', rfl, hratio', hd', rfl⟩ := exists_ratio hy
  have hpos : (0 : ℚ) < d := by exact_mod_cast hd
  have hpos' : (0 : ℚ) < d' := by exact_mod_cast hd'
  have hcompare : (finite s m e).compare? (finite s' m' e') =
      some (compare (n * d') (n' * d)) := by
    simp [compare?, hratio, hratio']
  rw [lt, hcompare, decide_eq_true_eq, Option.some.injEq, compare_lt_iff_lt,
    div_lt_div_iff₀ hpos hpos']
  exact_mod_cast Iff.rfl

/-! ## Rounding what needs no rounding -/

theorem scaled_div (num : Nat) {den : Nat} (hden : 0 < den) (e : Int) :
    0 < (scaled num den e).2 ∧
      ((scaled num den e).1 : ℚ) / (scaled num den e).2 = num / den / 2 ^ e := by
  have hden' : (den : ℚ) ≠ 0 := by positivity
  unfold scaled
  split_ifs with he
  · refine ⟨Nat.mul_pos hden (Nat.pow_pos Nat.two_pos), ?_⟩
    obtain ⟨k, rfl⟩ := Int.eq_ofNat_of_zero_le he
    simp [div_div]
  · refine ⟨hden, ?_⟩
    obtain ⟨k, hk⟩ := Int.eq_ofNat_of_zero_le (show 0 ≤ -e by omega)
    obtain rfl : e = -k := by omega
    simp [mul_div_right_comm]

theorem roundHalfEven_of_eq {n d k : Nat} (hd : 0 < d) (h : (n : ℚ) / d = k) :
    roundHalfEven n d = k := by
  have hd' : (d : ℚ) ≠ 0 := by positivity
  obtain rfl : n = k * d := by
    rw [div_eq_iff hd'] at h
    exact_mod_cast h
  simp [roundHalfEven, Nat.mul_div_cancel k hd, hd]

theorem exists_exponentOf {num den : Nat} (hnum : 0 < num) (hden : 0 < den) :
    ∃ e, exponentOf num den = max leastExponent e ∧
      (2 : ℚ) ^ (52 + e) ≤ num / den ∧ (num : ℚ) / den < 2 ^ (53 + e) := by
  have hlow : ((2 : ℚ) ^ (num.log2 : Int)) ≤ num := by
    exact_mod_cast Nat.log2_self_le hnum.ne'
  have hhigh : (num : ℚ) < 2 ^ ((num.log2 : Int) + 1) := by
    exact_mod_cast Nat.lt_log2_self (n := num)
  have hlow' : ((2 : ℚ) ^ (den.log2 : Int)) ≤ den := by
    exact_mod_cast Nat.log2_self_le hden.ne'
  have hhigh' : (den : ℚ) < 2 ^ ((den.log2 : Int) + 1) := by
    exact_mod_cast Nat.lt_log2_self (n := den)
  have hden' : (0 : ℚ) < den := by exact_mod_cast hden
  obtain ⟨guess, hguess⟩ : ∃ guess : Int, guess = (num.log2 : Int) - den.log2 - 52 := ⟨_, rfl⟩
  have hupper : (num : ℚ) / den < 2 ^ (53 + guess) := by
    rw [div_lt_iff₀ hden']
    calc (num : ℚ) < 2 ^ ((num.log2 : Int) + 1) := hhigh
      _ = 2 ^ (53 + guess) * 2 ^ (den.log2 : Int) := by
          rw [← zpow_add₀ two_ne_zero]
          congr 1
          omega
      _ ≤ 2 ^ (53 + guess) * den := by gcongr
  have hlower : (2 : ℚ) ^ (51 + guess) ≤ num / den := by
    rw [le_div_iff₀ hden']
    calc (2 : ℚ) ^ (51 + guess) * den ≤ 2 ^ (51 + guess) * 2 ^ ((den.log2 : Int) + 1) := by gcongr
      _ = 2 ^ (num.log2 : Int) := by
          rw [← zpow_add₀ two_ne_zero]
          congr 1
          omega
      _ ≤ num := hlow
  obtain ⟨hpos, hscaled⟩ := scaled_div num hden guess
  have hsmall : (scaled num den guess).1 / (scaled num den guess).2 < Nat.pow 2 52 ↔
      (num : ℚ) / den < 2 ^ (52 + guess) := by
    have hpos' : (0 : ℚ) < (scaled num den guess).2 := by exact_mod_cast hpos
    rw [Nat.div_lt_iff_lt_mul hpos, zpow_add₀ two_ne_zero, ← div_lt_iff₀ (by positivity), ← hscaled,
      div_lt_iff₀ hpos']
    exact_mod_cast Iff.rfl
  unfold exponentOf
  rw [← hguess]
  -- The guess is right, or too high by one.
  by_cases hless : (num : ℚ) / den < 2 ^ (52 + guess)
  · refine ⟨guess - 1, by simp only [if_pos (hsmall.2 hless)], ?_, ?_⟩
    · rwa [show 52 + (guess - 1) = 51 + guess by ring]
    · rwa [show 53 + (guess - 1) = 52 + guess by ring]
  · exact ⟨guess, by simp only [if_neg (mt hsmall.1 hless)], not_lt.1 hless, hupper⟩

theorem ofRatio_exact {num den m : Nat} {e : Int} (hden : 0 < den) (hm : m < 2 ^ 53)
    (hleast : leastExponent ≤ e) (hgreatest : e ≤ greatestExponent)
    (h : (num : ℚ) / den = m * 2 ^ e) (negative : Bool) :
    (ofRatio negative num den).toRat? = some (signed negative (m * 2 ^ e)) := by
  unfold ofRatio
  have hden' : (den : ℚ) ≠ 0 := by positivity
  split_ifs with hnum
  · rw [toRat?_finite, ← h, hnum]
    simp
  · obtain ⟨e', hexponent, hlower, hupper⟩ := exists_exponentOf (Nat.pos_of_ne_zero hnum) hden
    have hle : exponentOf num den ≤ e := by
      have hlt : (2 : ℚ) ^ (52 + e') < 2 ^ (53 + e) := by
        calc (2 : ℚ) ^ (52 + e') ≤ m * 2 ^ e := h ▸ hlower
          _ < 2 ^ 53 * 2 ^ e := by
              gcongr
              exact_mod_cast hm
          _ = 2 ^ (53 + e) := by rw [zpow_add₀ two_ne_zero]; norm_cast
      have := (zpow_lt_zpow_iff_right₀ (one_lt_two : (1 : ℚ) < 2)).1 hlt
      omega
    obtain ⟨k, hk⟩ := Int.eq_ofNat_of_zero_le (sub_nonneg.2 hle)
    have hshift : (num : ℚ) / den / 2 ^ exponentOf num den = (m * 2 ^ k : Nat) := by
      rw [h, show e = k + exponentOf num den by omega, zpow_add₀ two_ne_zero]
      field_simp
      push_cast
      norm_cast
    obtain ⟨hpos, hscaled⟩ := scaled_div num hden (exponentOf num den)
    have hround := roundHalfEven_of_eq hpos (hscaled.trans hshift)
    have hsmall : m * 2 ^ k < 2 ^ 53 := by
      have hlt : ((m * 2 ^ k : Nat) : ℚ) < 2 ^ 53 := by
        rw [← hshift, div_lt_iff₀ (by positivity)]
        calc (num : ℚ) / den < 2 ^ (53 + e') := hupper
          _ ≤ 2 ^ (53 + exponentOf num den) := by
              refine zpow_le_zpow_right₀ one_le_two ?_
              omega
          _ = 2 ^ 53 * 2 ^ exponentOf num den := by rw [zpow_add₀ two_ne_zero]; norm_cast
      exact_mod_cast hlt
    have hcarry : m * 2 ^ k ≠ Nat.pow 2 53 := hsmall.ne
    simp only [hround, if_neg hcarry, if_neg (not_lt.2 (hle.trans hgreatest)), toRat?_finite]
    congr 2
    rw [← hshift, ← h]
    field_simp

/-- A sum that is the value of a number is exact. -/
theorem toRat?_add {x y : Binary64} {p q : ℚ} (hx : x.toRat? = some p) (hy : y.toRat? = some q)
    (hsum : Representable (p + q)) : (x.add y).toRat? = some (p + q) := by
  obtain ⟨s, m, e, n, d, rfl, hratio, hd, rfl⟩ := exists_ratio hx
  obtain ⟨s', m', e', n', d', rfl, hratio', hd', rfl⟩ := exists_ratio hy
  obtain ⟨negative, m, e, hm, hleast, hgreatest, hvalue⟩ := hsum
  rw [toRat?_finite, Option.some.injEq] at hvalue
  have hden : (0 : ℚ) < (d * d' : Nat) := by exact_mod_cast Nat.mul_pos hd hd'
  have hpos : (0 : ℚ) < d := by exact_mod_cast hd
  have hpos' : (0 : ℚ) < d' := by exact_mod_cast hd'
  have hratios : (n : ℚ) / d + n' / d' = (n * d' + n' * d : Int) / (d * d' : Nat) := by
    push_cast
    field_simp
  rw [add]
  simp only [hratio, hratio']
  rw [hratios] at hvalue ⊢
  generalize (n * d' + n' * d : Int) = sum at hvalue ⊢
  have hmagnitude : (sum.natAbs : ℚ) / (d * d' : Nat) = m * 2 ^ e := by
    rw [Nat.cast_natAbs, Int.cast_abs, ← abs_of_pos hden, ← abs_div, ← hvalue]
    have hnonneg : (0 : ℚ) ≤ m * 2 ^ e := by positivity
    unfold signed
    split_ifs <;> simp [abs_of_nonneg hnonneg]
  rw [ofRatio_exact (Nat.mul_pos hd hd') hm hleast hgreatest hmagnitude, ← hmagnitude,
    Option.some.injEq, signed]
  rcases lt_trichotomy sum 0 with hneg | rfl | hpositive
  · have hlt : (sum : ℚ) < 0 := by exact_mod_cast hneg
    rw [if_neg hneg.ne, decide_eq_true hneg, if_pos rfl, Nat.cast_natAbs, Int.cast_abs,
      abs_of_neg hlt, neg_div, neg_neg]
  · simp
  · have hlt : (0 : ℚ) < sum := by exact_mod_cast hpositive
    rw [if_neg hpositive.ne', decide_eq_false (not_lt.2 hpositive.le), if_neg Bool.false_ne_true,
      Nat.cast_natAbs, Int.cast_abs, abs_of_pos hlt]

end SourceScan.Binary64
