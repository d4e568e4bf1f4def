import Mathlib.Algebra.BigOperators.Group.List.Lemmas
import Mathlib.Algebra.GroupWithZero.Nat
import Mathlib.Algebra.Order.BigOperators.Group.List
import Mathlib.Algebra.Order.Group.Nat
import Mathlib.Data.List.GetD
import Mathlib.Order.Monotone.Basic
import SourceScan.Calendar.Date

/-!
# Dates by their numbers

Each day number is the number of the date that it stands for, and a date with a smaller number
comes before in the calendar.
-/

namespace SourceScan.Calendar

variable {y z m k : Nat}

/-! ## Years and months -/

theorem daysBeforeYear_spans {x : Nat} (a b c d : Nat) (hx : x = a * 400 + b * 100 + c * 4 + d)
    (hb : b ≤ 3) (hc : c ≤ 24) (hd : d ≤ 3) :
    daysBeforeYear (x + 1) = a * 146097 + b * 36524 + c * 1461 + d * 365 := by
  unfold daysBeforeYear
  dsimp only
  omega

theorem sum_monthLengths (y : Nat) : (monthLengths y).sum = if isLeap y then 366 else 365 := by
  unfold monthLengths
  split <;> rfl

theorem div_succ (n k : Nat) : (n + 1) / k = n / k + if (n + 1) % k = 0 then 1 else 0 := by
  simp only [Nat.succ_div, Nat.dvd_iff_mod_eq_zero]

theorem daysBeforeYear_succ (hy : 0 < y) :
    daysBeforeYear (y + 1) = daysBeforeYear y + (monthLengths y).sum := by
  obtain ⟨n, rfl⟩ : ∃ n, y = n + 1 := ⟨y - 1, by omega⟩
  have hhundred : (n + 1) % 100 = 0 → (n + 1) % 4 = 0 := by omega
  have hfour : (n + 1) % 400 = 0 → (n + 1) % 100 = 0 := by omega
  have hfewer : n / 100 ≤ n := Nat.div_le_self n 100
  rw [sum_monthLengths]
  unfold daysBeforeYear isLeap
  simp only [Nat.add_sub_cancel, div_succ, Bool.and_eq_true, Bool.or_eq_true, decide_eq_true_eq]
  generalize n / 4 = fours, n / 100 = hundreds, n / 400 = spans at *
  generalize (n + 1) % 4 = of4, (n + 1) % 100 = of100, (n + 1) % 400 = of400 at *
  split_ifs <;> omega

theorem daysBeforeYear_le (h : y ≤ z) : daysBeforeYear y ≤ daysBeforeYear z := by
  apply monotone_nat_of_le_succ ?_ h
  intro y
  rcases Nat.eq_zero_or_pos y with rfl | hy
  · exact Nat.le_refl 0
  · rw [daysBeforeYear_succ hy]
    exact Nat.le_add_right _ _

theorem daysBeforeMonth_eq (y m : Nat) :
    daysBeforeMonth y m = ((monthLengths y).take (m - 1)).sum :=
  List.sum_eq_foldl.symm

theorem daysBeforeMonth_le (h : m ≤ k) : daysBeforeMonth y m ≤ daysBeforeMonth y k := by
  rw [daysBeforeMonth_eq, daysBeforeMonth_eq]
  exact List.monotone_sum_take _ (Nat.sub_le_sub_right h 1)

theorem daysBeforeMonth_succ (hm : 0 < m) (hmost : m ≤ 12) :
    daysBeforeMonth y (m + 1) = daysBeforeMonth y m + daysInMonth y m := by
  have hlength : m - 1 < (monthLengths y).length := Nat.lt_of_lt_of_le (Nat.pred_lt hm.ne') hmost
  have hindex : m + 1 - 1 = m - 1 + 1 := by omega
  rw [daysBeforeMonth_eq, daysBeforeMonth_eq, daysInMonth, hindex,
    List.sum_take_succ _ _ hlength, List.getD_eq_getElem _ _ hlength]

theorem daysBeforeMonth_thirteen (y : Nat) : daysBeforeMonth y 13 = (monthLengths y).sum := by
  rw [daysBeforeMonth_eq]
  rfl

theorem daysInMonth_le (year month : Nat) : daysInMonth year month ≤ 31 := by
  have hall : ∀ x ∈ monthLengths year, x ≤ 31 := by
    unfold monthLengths
    split <;> decide
  rw [daysInMonth, List.getD_eq_getElem?_getD]
  cases h : (monthLengths year)[month - 1]? with
  | none => exact Nat.zero_le 31
  | some x => exact hall x (List.mem_of_getElem? h)

/-! ## The order of the dates -/

namespace Date

variable {d e : Date} {n : Nat}

structure Proper (d : Date) : Prop where
  year_pos : 0 < d.year
  month_pos : 0 < d.month
  month_le : d.month ≤ 12
  day_pos : 0 < d.day
  day_le : d.day ≤ daysInMonth d.year d.month

theorem fault?_eq_none : d.fault? = none ↔ d.Proper ∧ d.year ≤ greatestYear := by
  unfold fault? leastYear
  simp only [Bool.or_eq_true, decide_eq_true_eq]
  constructor
  · intro h
    by_cases hyear : d.year < 1 ∨ greatestYear < d.year
    · rw [if_pos hyear] at h
      cases h
    · rw [if_neg hyear] at h
      by_cases hmonth : d.month < 1 ∨ 12 < d.month
      · rw [if_pos hmonth] at h
        cases h
      · rw [if_neg hmonth] at h
        by_cases hday : d.day < 1 ∨ daysInMonth d.year d.month < d.day
        · rw [if_pos hday] at h
          cases h
        · exact ⟨⟨by omega, by omega, by omega, by omega, by omega⟩, by omega⟩
  · rintro ⟨hd, hyear⟩
    have hpos := hd.year_pos
    have hmonth := hd.month_le
    have hday := hd.day_le
    rw [if_neg (by omega), if_neg (by have := hd.month_pos; omega),
      if_neg (by have := hd.day_pos; omega)]

theorem Proper.day_number_le (hd : d.Proper) :
    daysBeforeMonth d.year d.month + d.day ≤ daysBeforeMonth d.year (d.month + 1) := by
  rw [daysBeforeMonth_succ hd.month_pos hd.month_le]
  exact Nat.add_le_add_left hd.day_le _

theorem Proper.ordinal_le (hd : d.Proper) : d.ordinal ≤ daysBeforeYear (d.year + 1) := by
  have hmonth : daysBeforeMonth d.year (d.month + 1) ≤ daysBeforeMonth d.year 13 :=
    daysBeforeMonth_le (Nat.succ_le_succ hd.month_le)
  have hday := hd.day_number_le
  rw [daysBeforeMonth_thirteen] at hmonth
  rw [daysBeforeYear_succ hd.year_pos]
  unfold ordinal
  omega

theorem Proper.lt_ordinal (hd : d.Proper) : daysBeforeYear d.year < d.ordinal := by
  have hday := hd.day_pos
  unfold ordinal
  omega

def Before (d e : Date) : Prop :=
  d.year < e.year ∨ d.year = e.year ∧
    (d.month < e.month ∨ d.month = e.month ∧ d.day < e.day)

theorem before_trichotomy (d e : Date) : d.Before e ∨ d = e ∨ e.Before d := by
  cases d
  cases e
  simp only [Before, Date.mk.injEq]
  omega

theorem Before.ordinal_lt (h : d.Before e) (hd : d.Proper) (he : e.Proper) :
    d.ordinal < e.ordinal := by
  rcases h with hyear | ⟨hyear, hmonth | ⟨hmonth, hday⟩⟩
  · -- the whole year of the first date lies before that of the second
    have hyears : daysBeforeYear (d.year + 1) ≤ daysBeforeYear e.year := daysBeforeYear_le hyear
    have hlast := hd.ordinal_le
    have hfirst := he.lt_ordinal
    omega
  · have hmonths : daysBeforeMonth d.year (d.month + 1) ≤ daysBeforeMonth d.year e.month :=
      daysBeforeMonth_le hmonth
    have hlast := hd.day_number_le
    have hfirst := he.day_pos
    unfold ordinal
    rw [← hyear]
    omega
  · unfold ordinal
    rw [hyear, hmonth]
    omega

theorem Proper.before_or_eq (hd : d.Proper) (he : e.Proper) (h : d.ordinal ≤ e.ordinal) :
    d.Before e ∨ d = e := by
  rcases before_trichotomy d e with hbefore | heq | hafter
  · exact .inl hbefore
  · exact .inr heq
  · exact absurd (hafter.ordinal_lt he hd) (Nat.not_lt.mpr h)

/-! ## The date of a day number -/

theorem monthAndDay_spec (month index : Nat) (lengths : List Nat) (h : index < lengths.sum) :
    ∃ k < lengths.length, ∃ day, monthAndDay month index lengths = (month + k, day) ∧
      0 < day ∧ day ≤ lengths.getD k 0 ∧ (lengths.take k).sum + day = index + 1 := by
  induction lengths generalizing month index with
  | nil => cases h
  | cons length lengths ih =>
      rw [monthAndDay]
      split
      · next hin =>
          exact ⟨0, Nat.zero_lt_succ _, index + 1, rfl, Nat.succ_pos _, hin, by simp⟩
      · next hout =>
          rw [List.sum_cons] at h
          obtain ⟨k, hk, day, heq, hpos, hle, hsum⟩ :=
            ih (month + 1) (index - length) (by omega)
          refine ⟨k + 1, Nat.succ_lt_succ hk, day, ?_, hpos, hle, ?_⟩
          · rw [heq, Nat.add_assoc, Nat.add_comm 1 k]
          · rw [List.take_succ_cons, List.sum_cons]
            omega

theorem ofIndex_spec (hy : 0 < y) {index : Nat} (h : index < (monthLengths y).sum) :
    ∃ month day, monthAndDay 1 index (monthLengths y) = (month, day) ∧
      (Date.mk y month day).Proper ∧
      (Date.mk y month day).ordinal = daysBeforeYear y + index + 1 := by
  obtain ⟨k, hk, day, heq, hpos, hle, hsum⟩ := monthAndDay_spec 1 index (monthLengths y) h
  have hk : k < 12 := hk
  have hback : 1 + k - 1 = k := Nat.add_sub_cancel_left 1 k
  refine ⟨1 + k, day, heq, ⟨hy, ?_, ?_, hpos, ?_⟩, ?_⟩
  · exact Nat.lt_add_right k Nat.one_pos
  · exact Nat.add_comm k 1 ▸ hk
  · dsimp only [daysInMonth]
    rw [hback]
    exact hle
  · dsimp only [ordinal]
    rw [daysBeforeMonth_eq, hback]
    omega

theorem newYearsEve_spec (hy : 0 < y) :
    (Date.mk y 12 31).Proper ∧ (Date.mk y 12 31).ordinal = daysBeforeYear (y + 1) := by
  have hmonth : daysInMonth y 12 = 31 := rfl
  have hall : daysBeforeMonth y 13 = daysBeforeMonth y 12 + daysInMonth y 12 :=
    daysBeforeMonth_succ (by decide) (by decide)
  refine ⟨⟨hy, Nat.zero_lt_succ 11, Nat.le_refl 12, Nat.zero_lt_succ 30, hmonth.ge⟩, ?_⟩
  dsimp only [ordinal]
  rw [daysBeforeYear_succ hy, ← daysBeforeMonth_thirteen, hall, hmonth, Nat.add_assoc]

theorem ofOrdinal_spec (n : Nat) :
    (ofOrdinal (n + 1)).Proper ∧ (ofOrdinal (n + 1)).ordinal = n + 1 := by
  unfold ofOrdinal
  dsimp only
  rw [Nat.add_sub_cancel]
  generalize ha : n / 146097 = a
  generalize hr400 : n % 146097 = r400
  generalize hb : r400 / 36524 = b
  generalize hr100 : r400 % 36524 = r100
  generalize hc : r100 / 1461 = c
  generalize hr4 : r100 % 1461 = r4
  generalize hd : r4 / 365 = d
  split
  · next hlast =>
      -- the last day of four or of 400 years
      simp only [Bool.or_eq_true, decide_eq_true_eq] at hlast
      have hnumber : daysBeforeYear (a * 400 + b * 100 + c * 4 + d + 1) = n + 1 := by
        by_cases hfull : b = 4
        · rw [daysBeforeYear_spans (a + 1) 0 0 0 (by omega) (by decide) (by decide) (by decide)]
          omega
        · rw [daysBeforeYear_spans a b (c + 1) 0 (by omega) (by omega) (by omega) (by decide)]
          omega
      have heve := newYearsEve_spec (y := a * 400 + b * 100 + c * 4 + d) (by omega)
      rw [hnumber] at heve
      exact heve
  · next hother =>
      simp only [Bool.or_eq_true, decide_eq_true_eq] at hother
      have hindex : r4 % 365 < (monthLengths (a * 400 + b * 100 + c * 4 + d + 1)).sum := by
        rw [sum_monthLengths]
        split <;> omega
      obtain ⟨month, day, heq, hproper, hordinal⟩ := ofIndex_spec (Nat.succ_pos _) hindex
      rw [heq]
      refine ⟨hproper, hordinal.trans ?_⟩
      rw [daysBeforeYear_spans a b c d rfl (by omega) (by omega) (by omega)]
      omega

theorem fault?_ofOrdinal (h : n < greatestOrdinal) : (ofOrdinal (n + 1)).fault? = none := by
  obtain ⟨hproper, hordinal⟩ := ofOrdinal_spec n
  refine fault?_eq_none.mpr ⟨hproper, ?_⟩
  by_contra! hyear
  have hfirst := hproper.lt_ordinal
  have hyears : daysBeforeYear (greatestYear + 1) ≤ daysBeforeYear (ofOrdinal (n + 1)).year :=
    daysBeforeYear_le hyear
  have hall : daysBeforeYear (greatestYear + 1) = greatestOrdinal := rfl
  omega

end Date

end SourceScan.Calendar
