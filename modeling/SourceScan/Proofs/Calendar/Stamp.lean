import Mathlib.Data.List.TakeWhile
import SourceScan.Proofs.Calendar.Instant
import SourceScan.Proofs.Number.Row
import SourceScan.Report.Document
import SourceScan.Yaml.Values

/-!
# Time stamps

The stamp of a point in time is a row of numbers.  It is read back as the same instant to the
millisecond, and the order of the stamps as texts is that of the instants.
-/

namespace SourceScan

namespace Calendar

namespace DateTime

variable {u v : DateTime}

/-! ## The stamp as a row of numbers -/

/-- The counts of digits in a stamp and the characters after the numbers. -/
def stampFrame : List (Nat × Char) :=
  [(4, '-'), (2, '-'), (2, 'T'), (2, ':'), (2, ':'), (2, '.'), (3, 'Z')]

def stampForm : Text := "dddd-dd-ddTdd:dd:dd.dddZ"

def numbers (u : DateTime) : List Nat :=
  [u.date.year, u.date.month, u.date.day, u.hour, u.minute, u.second, u.microsecond / 1000]

theorem stamp?_eq (t : DateTime) :
    t.stamp? = t.toUtc?.map fun u => fillIn stampFrame u.numbers := by
  unfold stamp? Date.toText clockText
  simp only [stampFrame, numbers, fillIn, List.append_assoc, List.cons_append]

theorem Aware.hasRoom (hu : u.Aware) : HasRoom stampFrame u.numbers := by
  obtain ⟨-, hdate, hhour, hminute, hsecond⟩ := fault?_eq_none.mp hu.faultless
  obtain ⟨hproper, hyear⟩ := Date.fault?_eq_none.mp hdate
  have hmonth := hproper.month_le
  have hday := hproper.day_le.trans (daysInMonth_le _ _)
  have hmicro := hu.microsecond_lt
  have hmilli : u.microsecond / 1000 < 1000 := by omega
  exact .cons ⟨by decide, Nat.lt_succ_of_le hyear⟩ <|
    .cons ⟨by decide, hmonth.trans_lt (by decide)⟩ <|
    .cons ⟨by decide, hday.trans_lt (by decide)⟩ <|
    .cons ⟨by decide, hhour.trans_lt (by decide)⟩ <|
    .cons ⟨by decide, hminute.trans_lt (by decide)⟩ <|
    .cons ⟨by decide, hsecond.trans_lt (by decide)⟩ <|
    .cons ⟨by decide, hmilli⟩ .nil

theorem numbers_lex (hu : u.Universal) (hv : v.Universal) (h : u.instant ≤ v.instant) :
    List.Lex (· < ·) u.numbers v.numbers ∨ u.numbers = v.numbers := by
  obtain ⟨-, hdate, hhour, hminute, hsecond⟩ := fault?_eq_none.mp hu.faultless
  obtain ⟨-, hdate', hhour', hminute', hsecond'⟩ := fault?_eq_none.mp hv.faultless
  have hmicro := hu.microsecond_lt
  have hmicro' := hv.microsecond_lt
  rw [instant, instant, hu.utcMinutes_eq, hv.utcMinutes_eq] at h
  have hordinal : u.date.ordinal ≤ v.date.ordinal := by omega
  unfold numbers
  rcases (Date.fault?_eq_none.mp hdate).1.before_or_eq (Date.fault?_eq_none.mp hdate').1
    hordinal with hbefore | heq
  · left
    rcases hbefore with hyear | ⟨hyear, hmonth | ⟨hmonth, hday⟩⟩
    · exact .rel hyear
    · rw [hyear]
      exact .cons (.rel hmonth)
    · rw [hyear, hmonth]
      exact .cons (.cons (.rel hday))
  · rw [heq] at h ⊢
    have hclock : u.hour < v.hour ∨ u.hour = v.hour ∧ (u.minute < v.minute ∨
        u.minute = v.minute ∧ (u.second < v.second ∨ u.second = v.second ∧
          u.microsecond / 1000 ≤ v.microsecond / 1000)) := by
      omega
    rcases hclock with hhour | ⟨hhour, hminute | ⟨hminute, hsecond | ⟨hsecond, hmilli⟩⟩⟩
    · exact .inl (.cons (.cons (.cons (.rel hhour))))
    · rw [hhour]
      exact .inl (.cons (.cons (.cons (.cons (.rel hminute)))))
    · rw [hhour, hminute]
      exact .inl (.cons (.cons (.cons (.cons (.cons (.rel hsecond))))))
    · rw [hhour, hminute, hsecond]
      rcases Nat.lt_or_eq_of_le hmilli with hless | hsame
      · exact .inl (.cons (.cons (.cons (.cons (.cons (.cons (.rel hless)))))))
      · exact .inr (by rw [hsame])

end DateTime

end Calendar

/-! ## Reading a stamp -/

namespace Yaml

variable {least n width : Nat} {s : Text}

theorem digits?_append (h : s.Writes width n) (hleast : least ≤ width) (rest : Text) :
    digits? least width (s ++ rest) = some (s, rest) := by
  have hrun : ((s ++ rest).take width).takeWhile Char.isDigit = s := by
    rw [List.take_left' h.length]
    exact List.takeWhile_eq_self_iff.mpr h.digits
  unfold digits?
  dsimp only
  rw [hrun, h.length, if_neg (Nat.not_lt.mpr hleast), List.drop_left' h.length]

variable {year month day hour minute second milli : Nat}
  {yearText monthText dayText hourText minuteText secondText milliText : Text}

theorem clock?_eq (hhour : hourText.Writes 2 hour) (hminute : minuteText.Writes 2 minute)
    (hsecond : secondText.Writes 2 second) (hmilli : milliText.Writes 3 milli) :
    clock? (hourText ++ ':' :: (minuteText ++ ':' :: (secondText ++ '.' ::
      (milliText ++ ['Z'])))) =
        some ((hourText, minuteText, secondText, milliText), some 0) := by
  have hfraction : (milliText ++ ['Z']).takeWhile Char.isDigit = milliText := by
    rw [List.takeWhile_append_of_pos hmilli.digits]
    exact List.append_nil _
  have hzone : (milliText ++ ['Z']).dropWhile Char.isDigit = ['Z'] := by
    rw [List.dropWhile_append_of_pos hmilli.digits]
    rfl
  unfold clock?
  simp only [digits?_append hhour (by decide : 1 ≤ 2), digits?_append hminute (Nat.le_refl 2),
    digits?_append hsecond (Nat.le_refl 2), char?, if_true, Option.bind_eq_bind,
    Option.bind_some, hfraction, hzone]
  rfl

theorem microseconds_eq (hmilli : milliText.Writes 3 milli) :
    microseconds milliText = milli * 1000 := by
  have htake : milliText.take 6 = milliText :=
    List.take_of_length_le (by rw [hmilli.length]; decide)
  unfold microseconds
  dsimp only
  rw [htake, hmilli.length, Numeral.digitsValue, List.map_append, Numeral.ofDigits_append,
    ← Numeral.digitsValue, hmilli.value]
  simp [List.replicate]
  omega

theorem read?_eq (hyear : yearText.Writes 4 year) (hmonth : monthText.Writes 2 month)
    (hday : dayText.Writes 2 day) (hhour : hourText.Writes 2 hour)
    (hminute : minuteText.Writes 2 minute) (hsecond : secondText.Writes 2 second)
    (hmilli : milliText.Writes 3 milli) :
    Stamp.read? (yearText ++ '-' :: (monthText ++ '-' :: (dayText ++ 'T' ::
      (hourText ++ ':' :: (minuteText ++ ':' :: (secondText ++ '.' :: (milliText ++ ['Z']))))))) =
        some ⟨yearText, monthText, dayText,
          some (hourText, minuteText, secondText, milliText), some 0⟩ := by
  unfold Stamp.read?
  simp only [digits?_append hyear (Nat.le_refl 4), digits?_append hmonth (by decide : 1 ≤ 2),
    digits?_append hday (by decide : 1 ≤ 2), char?, if_true, Option.bind_eq_bind,
    Option.bind_some, Bool.true_or, decide_true, clock?_eq hhour hminute hsecond hmilli]
  rfl

theorem fillIn_stampFrame (u : Calendar.DateTime) :
    fillIn Calendar.DateTime.stampFrame u.numbers =
      Text.ofNatPadded 10 4 u.date.year ++ '-' :: (Text.ofNatPadded 10 2 u.date.month ++ '-' ::
        (Text.ofNatPadded 10 2 u.date.day ++ 'T' :: (Text.ofNatPadded 10 2 u.hour ++ ':' ::
          (Text.ofNatPadded 10 2 u.minute ++ ':' :: (Text.ofNatPadded 10 2 u.second ++ '.' ::
            (Text.ofNatPadded 10 3 (u.microsecond / 1000) ++ ['Z'])))))) := rfl

theorem readTimestamp_stamp {u : Calendar.DateTime} (hu : u.Universal) :
    readTimestamp (fillIn Calendar.DateTime.stampFrame u.numbers) =
      .ok (.dateTime { u with microsecond := u.microsecond / 1000 * 1000 }) := by
  obtain ⟨hyear, hrest⟩ := List.forall₂_cons.mp hu.hasRoom.writes
  obtain ⟨hmonth, hrest⟩ := List.forall₂_cons.mp hrest
  obtain ⟨hday, hrest⟩ := List.forall₂_cons.mp hrest
  obtain ⟨hhour, hrest⟩ := List.forall₂_cons.mp hrest
  obtain ⟨hminute, hrest⟩ := List.forall₂_cons.mp hrest
  obtain ⟨hsecond, hrest⟩ := List.forall₂_cons.mp hrest
  obtain ⟨hmilli, -⟩ := List.forall₂_cons.mp hrest
  have hlast : (fillIn Calendar.DateTime.stampFrame u.numbers).getLast? = some 'Z' := by
    simp [Calendar.DateTime.stampFrame, Calendar.DateTime.numbers, fillIn,
      List.getLast?_append, List.getLast?_cons]
  have hfault : Calendar.DateTime.fault?
      { u with microsecond := u.microsecond / 1000 * 1000 } = none := hu.faultless
  unfold readTimestamp withoutLineFeed
  rw [hlast, if_neg (by decide), fillIn_stampFrame,
    read?_eq hyear hmonth hday hhour hminute hsecond hmilli]
  simp only [hyear.value, hmonth.value, hday.value, hhour.value, hminute.value, hsecond.value,
    microseconds_eq hmilli, ← hu.offset, hfault]
  rfl

end Yaml

namespace Calendar.DateTime

variable {t : DateTime}

/-- The stamp of a point in time whose instant lies in the years that have dates has the form of a
stamp and is read as the instant rounded down to the millisecond; otherwise there is none, and no
report with it can be written.  Stamps are the same for the same instant, and in the order of the
instants. -/
theorem stamp_faithful (ht : t.Aware) :
    (t.InYears → ∃ s u, t.stamp? = some s ∧ HasForm stampForm s ∧
      Yaml.readTimestamp s = .ok (.dateTime u) ∧ u.Universal ∧
      u.instant = t.instant / 1000 * 1000) ∧
    (¬t.InYears → t.stamp? = none ∧ ∀ (r : Report) (format : Report.Format), r.scannedAt = t →
      r.serialize format = .error .timeOutOfRange) ∧
    ∀ u : DateTime, u.Aware →
      (t.instant = u.instant → t.stamp? = u.stamp?) ∧
      (t.instant ≤ u.instant → ∀ s s', t.stamp? = some s → u.stamp? = some s' →
        Report.textLe s s' = true) := by
  refine ⟨?_, ?_, ?_⟩
  · intro hin
    obtain ⟨u, hsome, hu, hinstant⟩ := exists_toUtc? ht hin
    refine ⟨_, _, ?_, ?_, Yaml.readTimestamp_stamp hu, ?_, ?_⟩
    · rw [stamp?_eq, hsome, Option.map_some]
    · exact hasForm_fillIn (by decide) hu.hasRoom
    · refine ⟨⟨hu.faultless, hu.zoned, ?_⟩, hu.offset⟩
      have := hu.microsecond_lt
      dsimp only
      omega
    · rw [← hinstant]
      exact instant_milli u
  · intro hout
    have hnone : t.stamp? = none := by
      rw [stamp?_eq, toUtc?_eq_none ht hout, Option.map_none]
    refine ⟨hnone, ?_⟩
    rintro r format rfl
    rw [Report.serialize, hnone]
  · intro u hu
    refine ⟨fun heq => by rw [stamp?_eq, stamp?_eq, toUtc?_congr ht hu heq], ?_⟩
    intro hle s s' hs hs'
    rw [stamp?_eq, Option.map_eq_some_iff] at hs hs'
    obtain ⟨v, hv, rfl⟩ := hs
    obtain ⟨w, hw, rfl⟩ := hs'
    obtain ⟨huniversal, hinstant⟩ := of_toUtc? ht hv
    obtain ⟨huniversal', hinstant'⟩ := of_toUtc? hu hw
    rcases numbers_lex huniversal huniversal' (by rw [hinstant, hinstant']; exact hle) with
      hless | hsame
    · exact textLe_fillIn hless huniversal.hasRoom huniversal'.hasRoom
    · rw [hsame]
      exact Report.textLe_refl _

def leapEvening : DateTime := ⟨⟨2024, 2, 29⟩, 23, 30, 59, 999999, some (-60)⟩

def lateEvening : DateTime := ⟨⟨9999, 12, 31⟩, 23, 59, 0, 0, some (-1)⟩

/-- Universal time carries the first evening into March, and the second one out of the years that
have dates. -/
theorem stamp_faithful_evenings :
    leapEvening.Aware ∧ leapEvening.InYears ∧
      leapEvening.stamp? = some ("2024-03-01T00:30:59.999Z" : Text) ∧
      (∃ u, Yaml.readTimestamp ("2024-03-01T00:30:59.999Z" : Text) = .ok (.dateTime u) ∧
        u.Universal ∧ u.instant = leapEvening.instant - 999) ∧
      Report.textLe ("0001-01-01T00:00:00.000Z" : Text) ("2024-03-01T00:30:59.999Z" : Text) ∧
      lateEvening.Aware ∧ ¬lateEvening.InYears ∧ lateEvening.stamp? = none := by
  have haware : leapEvening.Aware := ⟨by decide, rfl, by decide⟩
  have hearliest : earliest.Aware := ⟨by decide, rfl, by decide⟩
  have hlate : lateEvening.Aware := ⟨by decide, rfl, by decide⟩
  have hin : leapEvening.InYears := ⟨by decide, by decide⟩
  have hout : ¬lateEvening.InYears := fun h => absurd h.2 (by decide)
  have hstamp : leapEvening.stamp? = some ("2024-03-01T00:30:59.999Z" : Text) := by decide
  have hearly : earliest.stamp? = some ("0001-01-01T00:00:00.000Z" : Text) := by decide
  refine ⟨haware, hin, hstamp, ?_, ?_, hlate, hout, ((stamp_faithful hlate).2.1 hout).1⟩
  · obtain ⟨s, u, hs, -, hread, hu, hinstant⟩ := (stamp_faithful haware).1 hin
    obtain rfl := Option.some.inj (hs.symm.trans hstamp)
    refine ⟨u, hread, hu, hinstant.trans ?_⟩
    decide
  · exact ((stamp_faithful hearliest).2.2 leapEvening haware).2 (by decide) _ _ hearly hstamp

end Calendar.DateTime

end SourceScan
