import SourceScan.Calendar.DateTime
import SourceScan.Proofs.Calendar.Ordinal

/-!
# Instants

A point in time in a zone stands for an instant.  In universal time there is a point of the same
instant exactly if that lies in the years that have dates.
-/

namespace SourceScan.Calendar.DateTime

variable {t u : DateTime}

/-- Microseconds since the start of day 0 in universal time. -/
def instant (t : DateTime) : Int := (t.utcMinutes * 60 + t.second) * 1000000 + t.microsecond

structure Aware (t : DateTime) : Prop where
  faultless : t.fault? = none
  zoned : t.offset.isSome = true
  microsecond_lt : t.microsecond < 1000000

def earliest : DateTime := ⟨⟨leastYear, 1, 1⟩, 0, 0, 0, 0, some 0⟩

def latest : DateTime := ⟨⟨greatestYear, 12, 31⟩, 23, 59, 59, 999999, some 0⟩

def InYears (t : DateTime) : Prop := earliest.instant ≤ t.instant ∧ t.instant ≤ latest.instant

theorem fault?_eq_none : t.fault? = none ↔
    (∀ o, t.offset = some o → -1440 < o ∧ o < 1440) ∧ t.date.fault? = none ∧
      t.hour ≤ 23 ∧ t.minute ≤ 59 ∧ t.second ≤ 59 := by
  have hoffset : (t.offset.filter fun o => o ≤ -1440 || 1440 ≤ o) = none ↔
      ∀ o, t.offset = some o → -1440 < o ∧ o < 1440 := by
    rw [Option.filter_eq_none_iff]
    refine forall₂_congr fun o _ => ?_
    simp only [Bool.or_eq_true, decide_eq_true_eq]
    omega
  unfold fault?
  rw [← hoffset]
  cases t.offset.filter fun o => o ≤ -1440 || 1440 ≤ o with
  | some o => simp
  | none =>
      cases t.date.fault? with
      | some fault => simp
      | none =>
          simp only [true_and]
          split_ifs <;> simp <;> omega

theorem Aware.second_le (ht : t.Aware) : t.second ≤ 59 :=
  (fault?_eq_none.mp ht.faultless).2.2.2.2

theorem inYears_iff (ht : t.Aware) :
    t.InYears ↔ 1 ≤ t.utcMinutes / 1440 ∧ t.utcMinutes / 1440 ≤ Date.greatestOrdinal := by
  have hsecond := ht.second_le
  have hmicro := ht.microsecond_lt
  have hearliest : earliest.instant = 86400000000 := by decide
  have hlatest : latest.instant = 315537984000000000 - 1 := by decide
  rw [InYears, hearliest, hlatest]
  unfold instant Date.greatestOrdinal
  omega

theorem parts_of_instant (ht : t.Aware) (hu : u.Aware) (h : t.instant = u.instant) :
    t.utcMinutes = u.utcMinutes ∧ t.second = u.second ∧ t.microsecond = u.microsecond := by
  have hsecond := ht.second_le
  have hsecond' := hu.second_le
  have hmicro := ht.microsecond_lt
  have hmicro' := hu.microsecond_lt
  unfold instant at h
  omega

theorem toUtc?_congr (ht : t.Aware) (hu : u.Aware) (h : t.instant = u.instant) :
    t.toUtc? = u.toUtc? := by
  obtain ⟨hminutes, hsecond, hmicro⟩ := parts_of_instant ht hu h
  unfold toUtc?
  dsimp only
  rw [hminutes, hsecond, hmicro]

theorem toUtc?_eq_none (ht : t.Aware) (h : ¬t.InYears) : t.toUtc? = none := by
  rw [inYears_iff ht] at h
  unfold toUtc?
  dsimp only
  rw [if_pos]
  simp only [Bool.or_eq_true, decide_eq_true_eq]
  omega

structure Universal (u : DateTime) : Prop extends u.Aware where
  offset : u.offset = some 0

theorem Universal.utcMinutes_eq (hu : u.Universal) :
    u.utcMinutes = u.date.ordinal * 1440 + u.hour * 60 + u.minute := by
  rw [utcMinutes, hu.offset, localMinutes, Option.getD_some]
  omega

/-- The instant in universal time is the same one. -/
theorem exists_toUtc? (ht : t.Aware) (h : t.InYears) :
    ∃ u, t.toUtc? = some u ∧ u.Universal ∧ u.instant = t.instant := by
  rw [inYears_iff ht] at h
  obtain ⟨hstart, hend⟩ := h
  obtain ⟨n, hday⟩ : ∃ n : Nat, t.utcMinutes / 1440 = (n + 1 : Nat) :=
    ⟨(t.utcMinutes / 1440).toNat - 1, by omega⟩
  -- The minutes are those of whole days and of a part of one.
  let u : DateTime := { t with
    date := Date.ofOrdinal (n + 1)
    hour := (t.utcMinutes % 1440).toNat / 60
    minute := (t.utcMinutes % 1440).toNat % 60
    offset := some 0 }
  have hsome : t.toUtc? = some u := by
    unfold toUtc?
    dsimp only
    rw [hday, if_neg]
    · rfl
    · simp only [Bool.or_eq_true, decide_eq_true_eq]
      omega
  have hutc : u.Universal := by
    refine ⟨⟨fault?_eq_none.mpr ⟨?_, ?_, ?_, ?_, ht.second_le⟩, rfl, ht.microsecond_lt⟩, rfl⟩
    · rintro o ⟨⟩
      decide
    · exact Date.fault?_ofOrdinal (by omega)
    · show (t.utcMinutes % 1440).toNat / 60 ≤ 23
      omega
    · show (t.utcMinutes % 1440).toNat % 60 ≤ 59
      omega
  have hminutes : u.utcMinutes = t.utcMinutes := by
    rw [hutc.utcMinutes_eq, (Date.ofOrdinal_spec n).2]
    show ((n + 1 : Nat) : Int) * 1440 + ((t.utcMinutes % 1440).toNat / 60 : Nat) * 60 +
      ((t.utcMinutes % 1440).toNat % 60 : Nat) = t.utcMinutes
    omega
  refine ⟨u, hsome, hutc, ?_⟩
  rw [instant, hminutes]
  rfl

theorem of_toUtc? (ht : t.Aware) (h : t.toUtc? = some u) : u.Universal ∧ u.instant = t.instant := by
  by_cases hin : t.InYears
  · obtain ⟨v, hv, huniversal, hinstant⟩ := exists_toUtc? ht hin
    obtain rfl : v = u := Option.some.inj (hv.symm.trans h)
    exact ⟨huniversal, hinstant⟩
  · rw [toUtc?_eq_none ht hin] at h
    cases h

theorem instant_milli (u : DateTime) :
    instant { u with microsecond := u.microsecond / 1000 * 1000 } = u.instant / 1000 * 1000 := by
  have hminutes : utcMinutes { u with microsecond := u.microsecond / 1000 * 1000 } = u.utcMinutes :=
    rfl
  unfold instant
  rw [hminutes]
  dsimp only
  omega

end SourceScan.Calendar.DateTime
