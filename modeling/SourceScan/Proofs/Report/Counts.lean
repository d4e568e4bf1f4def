import Mathlib.Algebra.GroupWithZero.Nat
import Mathlib.Data.Char
import Mathlib.Data.List.Lex
import Mathlib.Data.List.Nodup
import SourceScan.Report.Basic

/-!
# Counting languages

The types of the records are counted one record after the other, in a list that grows whenever
a type is new, and at the end the list is put in order.  It then has the exact number of records
of each type, and it does not depend on the order in which they came.
-/

namespace SourceScan

namespace Report

variable {names names' : List Text} {counts : List (Text × Nat)} {name : Text} {n : Nat}

/-! ## The order of the counts -/

theorem textLe_iff {s t : Text} : textLe s t = true ↔ s ≤ t := by
  rw [← not_lt]
  induction s generalizing t with
  | nil => exact iff_of_true rfl (List.not_lt_nil t)
  | cons c s ih =>
      cases t with
      | nil => simp [textLe]
      | cons d t =>
          have hlt : c.toNat < d.toNat ↔ c < d := Iff.rfl
          rw [textLe, Bool.or_eq_true, Bool.and_eq_true, decide_eq_true_eq, decide_eq_true_eq,
            ih, hlt, List.cons_lt_cons_iff]
          rcases lt_trichotomy c d with hless | rfl | hmore
          · simp [hless, hless.ne', hless.not_gt]
          · simp
          · simp [hmore, hmore.ne', hmore.not_gt]

theorem countLe_iff {a b : Text × Nat} :
    countLe a b = true ↔ b.2 < a.2 ∨ a.2 = b.2 ∧ a.1 ≤ b.1 := by
  rw [countLe, Bool.or_eq_true, Bool.and_eq_true, decide_eq_true_eq, decide_eq_true_eq,
    textLe_iff]

theorem countLe_trans (a b c : Text × Nat) (hab : countLe a b = true)
    (hbc : countLe b c = true) : countLe a c = true := by
  rw [countLe_iff] at *
  rcases hab with hab | ⟨hab, hnames⟩
  · exact .inl (by omega)
  · rcases hbc with hbc | ⟨hbc, hnames'⟩
    · exact .inl (by omega)
    · exact .inr ⟨hab.trans hbc, hnames.trans hnames'⟩

theorem countLe_total (a b : Text × Nat) : (countLe a b || countLe b a) = true := by
  rw [Bool.or_eq_true, countLe_iff, countLe_iff]
  rcases Nat.lt_trichotomy a.2 b.2 with hlt | heq | hgt
  · exact .inr (.inl hlt)
  · exact (le_total a.1 b.1).imp (fun h => .inr ⟨heq, h⟩) fun h => .inr ⟨heq.symm, h⟩
  · exact .inl (.inl hgt)

theorem countLe_antisymm {a b : Text × Nat} (hab : countLe a b = true)
    (hba : countLe b a = true) : a = b := by
  rw [countLe_iff] at hab hba
  have hcount : a.2 = b.2 := by omega
  obtain ⟨-, hnames⟩ := hab.resolve_left (by omega)
  obtain ⟨-, hnames'⟩ := hba.resolve_left (by omega)
  exact Prod.ext (le_antisymm hnames hnames') hcount

/-! ## The tally -/

theorem sum_put (key : Text) (n : Nat) (counts : List (Text × Nat)) :
    ((Assoc.put key n counts).map (·.2)).sum + (Assoc.get? key counts).getD 0 =
      (counts.map (·.2)).sum + n := by
  induction counts with
  | nil => simp [Assoc.put, Assoc.get?]
  | cons a counts ih =>
      by_cases ha : a.1 = key
      · simp only [Assoc.put, Assoc.get?, ha, if_true, List.map_cons, List.sum_cons, decide_true,
          List.find?_cons_of_pos, Option.map_some, Option.getD_some]
        omega
      · simp only [Assoc.put, Assoc.get?, ha, if_false, List.map_cons, List.sum_cons,
          decide_false, Bool.false_eq_true, not_false_eq_true, List.find?_cons_of_neg] at ih ⊢
        omega

structure Counted (names : List Text) (counts : List (Text × Nat)) : Prop where
  nodup : (counts.map (·.1)).Nodup
  get?_eq : ∀ name,
    Assoc.get? name counts = if name ∈ names then some (names.count name) else none
  sum_eq : (counts.map (·.2)).sum = names.length

namespace Counted

theorem getD_get? (h : Counted names counts) (name : Text) :
    (Assoc.get? name counts).getD 0 = names.count name := by
  rw [h.get?_eq]
  split
  · rfl
  · next hout => exact (List.count_eq_zero.2 hout).symm

theorem countOne (h : Counted names counts) (name : Text) :
    Counted (names ++ [name]) (countOne counts name) := by
  refine ⟨Assoc.nodup_keys_put h.nodup _ _, fun other => ?_, ?_⟩
  · rw [Report.countOne, Assoc.get?_put, h.getD_get?, h.get?_eq]
    by_cases hname : name = other
    · simp [hname]
    · simp [hname, Ne.symm hname]
  · have hsum := sum_put name ((Assoc.get? name counts).getD 0 + 1) counts
    rw [h.sum_eq] at hsum
    rw [Report.countOne, List.length_append, List.length_singleton]
    omega

theorem foldl (h : Counted names counts) (more : List Text) :
    Counted (names ++ more) (more.foldl Report.countOne counts) := by
  induction more generalizing names counts with
  | nil => simpa using h
  | cons name more ih =>
      rw [List.append_cons]
      exact ih (h.countOne name)

end Counted

theorem counted_nil : Counted [] [] := ⟨List.nodup_nil, fun _ => rfl, rfl⟩

theorem counted_tally (names : List Text) : Counted names (tally names) :=
  counted_nil.foldl names

theorem mem_tally : (name, n) ∈ tally names ↔ 0 < n ∧ names.count name = n := by
  have h := counted_tally names
  rw [← Assoc.get?_eq_some_iff h.nodup, h.get?_eq]
  split
  · next hin =>
      have hpos := List.count_pos_iff.2 hin
      rw [Option.some.injEq]
      exact ⟨fun heq => ⟨heq ▸ hpos, heq⟩, And.right⟩
  · next hout =>
      rw [List.count_eq_zero.2 hout]
      exact iff_of_false nofun fun ⟨hpos, heq⟩ => Nat.ne_of_lt hpos heq

theorem nodup_tally (names : List Text) : (tally names).Nodup :=
  List.Nodup.of_map _ (counted_tally names).nodup

theorem count_le_of_tally_subset (h : tally names ⊆ tally names') (name : Text) :
    names.count name ≤ names'.count name := by
  rcases Nat.eq_zero_or_pos (names.count name) with hzero | hpos
  · omega
  · have hmem := h (mem_tally.2 ⟨hpos, rfl⟩)
    exact Nat.le_of_eq (mem_tally.1 hmem).2.symm

/-- Two tallies have the same counts only if they are of the same names. -/
theorem tally_perm_iff : (tally names).Perm (tally names') ↔ names.Perm names' := by
  constructor
  · intro h
    refine List.perm_iff_count.2 fun name => Nat.le_antisymm ?_ ?_
    · exact count_le_of_tally_subset h.subset name
    · exact count_le_of_tally_subset h.symm.subset name
  · intro h
    refine (List.perm_ext_iff_of_nodup (nodup_tally names) (nodup_tally names')).2 ?_
    rintro ⟨name, n⟩
    rw [mem_tally, mem_tally, h.count_eq name]

/-! ## The counts of a report -/

theorem languageCounts_perm (r : Report) :
    r.languageCounts.Perm (tally (r.records.map (·.type))) :=
  List.mergeSort_perm _ _

theorem languageCounts_ordered (r : Report) :
    r.languageCounts.Pairwise fun a b => countLe a b = true :=
  List.pairwise_mergeSort countLe_trans countLe_total _

theorem languageCounts_nodup (r : Report) : (r.languageCounts.map (·.1)).Nodup :=
  (r.languageCounts_perm.map (·.1)).nodup_iff.2 (counted_tally _).nodup

theorem eq_languageCounts {r : Report} (hperm : counts.Perm (tally (r.records.map (·.type))))
    (hordered : counts.Pairwise fun a b => countLe a b = true) : counts = r.languageCounts :=
  List.Perm.eq_of_pairwise (fun _ _ _ _ => countLe_antisymm) hordered r.languageCounts_ordered
    (hperm.trans r.languageCounts_perm.symm)

theorem languageCounts_eq_iff {r r' : Report} : r'.languageCounts = r.languageCounts ↔
    (r'.records.map (·.type)).Perm (r.records.map (·.type)) := by
  rw [← tally_perm_iff]
  constructor
  · intro heq
    exact r'.languageCounts_perm.symm.trans (heq ▸ r.languageCounts_perm)
  · intro hperm
    exact eq_languageCounts (r'.languageCounts_perm.trans hperm) r'.languageCounts_ordered

/-- Each type that a record has is listed once with the number of its records, and no other type
is; the numbers add up to that of the records, so the warnings do not count.  The list goes down
by number and, within a number, up by name.  Reports have the same list exactly if they have the
same types as often, so the order of the files does not matter. -/
theorem languageCounts_exact (r : Report) :
    (∀ type n, (type, n) ∈ r.languageCounts ↔
        0 < n ∧ r.records.countP (·.type = type) = n) ∧
      (r.languageCounts.map (·.1)).Nodup ∧
      (r.languageCounts.map (·.2)).sum = r.records.length ∧
      r.languageCounts.Pairwise (fun a b => b.2 < a.2 ∨ a.2 = b.2 ∧ a.1 < b.1) ∧
      (∀ r' : Report, r'.files.Perm r.files → r'.languageCounts = r.languageCounts) ∧
      ∀ r' : Report, r'.languageCounts = r.languageCounts ↔
        (r'.records.map (·.type)).Perm (r.records.map (·.type)) := by
  refine ⟨fun type n => ?_, r.languageCounts_nodup, ?_, ?_, fun r' hperm => ?_,
    fun _ => languageCounts_eq_iff⟩
  · have hcount : (r.records.map (·.type)).count type = r.records.countP (·.type = type) := by
      rw [List.count, List.countP_map]
      exact List.countP_congr fun record _ => by simp
    rw [r.languageCounts_perm.mem_iff, mem_tally, hcount]
  · have hsum := (r.languageCounts_perm.map (·.2)).sum_nat
    rw [hsum, (counted_tally _).sum_eq, List.length_map]
  · -- Entries of one number have different names, so the order by name is strict.
    have hnames := List.pairwise_map.1 r.languageCounts_nodup
    refine r.languageCounts_ordered.imp₂ (fun a b hle hne => ?_) hnames
    exact (countLe_iff.1 hle).imp_right fun ⟨heq, hname⟩ => ⟨heq, lt_of_le_of_ne hname hne⟩
  · exact languageCounts_eq_iff.2 ((hperm.filterMap Entry.record?).map (·.type))

def mixedReport : Report where
  files :=
    [.record ⟨RawText.ofText "b.go", "Go", 1, [], []⟩,
      .record ⟨RawText.ofText "a.py", "Python", 2, [], []⟩, .warning tooManyFiles,
      .record ⟨RawText.ofText "c.c", "C", 3, [], []⟩,
      .record ⟨RawText.ofText "d.py", "Python", 4, [], []⟩]
  fileCount := 4
  scannedAt := ⟨⟨2024, 1, 2⟩, 3, 4, 5, 0, some 0⟩
  excludedPatterns := []
  errors := []
  truncated := true
  timedOut := false

theorem languageCounts_exact_mixed :
    mixedReport.languageCounts =
        [(("Python" : Text), 2), (("C" : Text), 1), (("Go" : Text), 1)] ∧
      mixedReport.files.reverse.Perm mixedReport.files ∧
      { mixedReport with files := mixedReport.files.reverse }.languageCounts =
        mixedReport.languageCounts := by
  obtain ⟨-, -, -, -, hperm, -⟩ := languageCounts_exact mixedReport
  have hcounts : [(("Python" : Text), 2), (("C" : Text), 1), (("Go" : Text), 1)] =
      mixedReport.languageCounts :=
    eq_languageCounts (by decide) (by decide)
  exact ⟨hcounts.symm, List.reverse_perm _, hperm _ (List.reverse_perm _)⟩

end Report

end SourceScan
