import SourceScan.Proofs.Yaml.Pen.Runs
import SourceScan.Proofs.Yaml.Plain

/-!
# Plain scalars written

What the pen writes for a text that can be plain is a plain scalar of that text: its words
stay, and a new line may stand for a space between two of them.
-/

namespace SourceScan.Yaml

theorem hasInnerMark_append {s r : Text} (h : hasInnerMark (s ++ r) = false) :
    hasInnerMark r = false := by
  induction s with
  | nil => exact h
  | cons c s ih =>
      refine ih ?_
      cases hrest : s ++ r with
      | nil => rfl
      | cons d rest =>
          rw [List.cons_append, hrest, hasInnerMark, Bool.or_eq_false_iff] at h
          exact h.2

theorem getLast?_ne_colon {c : Char} {s r : Text} (hr : r.head?.all setsOff = true)
    (h : hasInnerMark (c :: (s ++ r)) = false) : s.getLast? ≠ some ':' := by
  induction s generalizing c with
  | nil => simp
  | cons d s ih =>
      rw [List.cons_append, hasInnerMark, Bool.or_eq_false_iff, Bool.or_eq_false_iff] at h
      cases s with
      | nil =>
          intro hlast
          obtain rfl : d = ':' := by simpa using hlast
          simp [hr] at h
      | cons e s =>
          rw [List.getLast?_cons_cons]
          exact ih h.2

structure IsPlainText (wide : Bool) (t : Text) : Prop where
  not_special : ∀ ch ∈ t, isSpecial wide ch = false
  not_break : ∀ ch ∈ t, isWrittenBreak ch = false
  no_mark : hasInnerMark (' ' :: t) = false
  head : t.head? ≠ some ' '
  last : t.getLast? ≠ some ' '

namespace IsPlainText

variable {wide : Bool} {s t r : Text} {k : Nat}

theorem of_canBePlain (h : canBePlain wide t = true) : IsPlainText wide t where
  not_special := by
    simp only [canBePlain, canBeSingleQuoted, Bool.and_eq_true, Bool.not_eq_true',
      List.any_eq_false] at h
    intro ch hch
    simpa using h.1.1.1.1.1.1 ch hch
  not_break := by
    simp only [canBePlain, isMultiline, Bool.and_eq_true, Bool.not_eq_true', List.any_eq_false] at h
    intro ch hch
    simpa using h.1.1.1.2 ch hch
  no_mark := by
    simp only [canBePlain, hasMark, Bool.and_eq_true, Bool.not_eq_true', Bool.or_eq_false_iff] at h
    obtain ⟨⟨⟨-, ⟨-, hlead⟩, hinner⟩, -⟩, -⟩ := h
    cases t with
    | nil => rfl
    | cons c s =>
        simp only [hasLeadingMark, Bool.or_eq_false_iff] at hlead
        have hnumber : c ≠ '#' := by
          rintro rfl
          cases hlead.1
        simp only [hasInnerMark, Bool.or_eq_false_iff]
        refine ⟨⟨?_, by simp [hnumber]⟩, hinner⟩
        by_cases hcolon : c = ':'
        · simpa [hcolon] using hlead.2
        · simp [hcolon]
  head := by
    simp only [canBePlain, Bool.and_eq_true, Bool.not_eq_true'] at h
    intro hhead
    simp [hhead, isSpaceOrBreak] at h
  last := by
    simp only [canBePlain, Bool.and_eq_true, Bool.not_eq_true'] at h
    intro hlast
    simp [hlast, isSpaceOrBreak] at h

theorem isWord (h : IsPlainText wide (s ++ r)) (hs : s ≠ []) (hr : r.head?.all setsOff = true)
    (hword : ∀ ch ∈ s, ch ≠ ' ') : IsWord s where
  ne_nil := hs
  not_comment := by
    obtain ⟨ch, s, rfl⟩ := List.exists_cons_of_ne_nil hs
    have hmark := h.no_mark
    rw [List.cons_append, hasInnerMark, Bool.or_eq_false_iff, Bool.or_eq_false_iff] at hmark
    rintro ⟨⟩
    simp [setsOff, isBlankOrEnd, isSpaceOrEnd] at hmark
  not_blank ch hch := by
    have hspecial := h.not_special ch (by simp [hch])
    have hbreak := h.not_break ch (by simp [hch])
    exact ⟨isBlankOrEnd_of_not_special hspecial hbreak (hword ch hch),
      isFlat_of_not_special hspecial hbreak⟩
  not_key := getLast?_ne_colon hr h.no_mark

theorem suffix (h : IsPlainText wide (s ++ List.replicate (k + 1) ' ' ++ r)) (hne : r ≠ [])
    (hr : r.head? ≠ some ' ') : IsPlainText wide r where
  not_special ch hch := h.not_special ch (by simp [hch])
  not_break ch hch := h.not_break ch (by simp [hch])
  no_mark := by
    have hmark := h.no_mark
    rw [List.replicate_succ', ← List.append_assoc, List.append_assoc, ← List.cons_append] at hmark
    exact hasInnerMark_append hmark
  head := hr
  last := by
    have hlast := h.last
    rwa [List.getLast?_append_of_ne_nil _ hne] at hlast

end IsPlainText

namespace Pen

variable {p : Pen} {s t : Text} {l : List Text} {column : Nat} {wide split : Bool}

inductive Words : List Text → Text → Prop
  | last {s : Text} (hs : IsWord s) : Words [s] s
  | more {s t : Text} {l : List Text} (k : Nat) (hs : IsWord s) (h : Words l t) :
      Words (s :: List.replicate (k + 1) ' ' :: l) (s ++ List.replicate (k + 1) ' ' ++ t)

theorem kind_eq_word {kind : RunKind} (hne : s ≠ []) (hkind : ∀ ch ∈ s, kindOf ch = kind)
    (hs : ∀ ch ∈ s, ch ≠ ' ' ∧ isWrittenBreak ch = false) : kind = .word := by
  obtain ⟨ch, rest, rfl⟩ := List.exists_cons_of_ne_nil hne
  rw [← hkind ch (by simp), kindOf_eq_word]
  exact hs ch (by simp)

theorem kind_eq_spaces {kind : RunKind} (hne : s ≠ []) (hkind : ∀ ch ∈ s, kindOf ch = kind)
    (hs : ∀ ch ∈ s, isWrittenBreak ch = false) (hother : kind ≠ .word) : kind = .spaces := by
  cases kind with
  | spaces => rfl
  | word => exact absurd rfl hother
  | breaks =>
      obtain ⟨ch, rest, rfl⟩ := List.exists_cons_of_ne_nil hne
      have hbreak := kindOf_eq_breaks.mp (hkind ch (by simp))
      rw [hs ch (by simp)] at hbreak
      cases hbreak

theorem words_of_alternates : ∀ l : List Text, Alternates (some .spaces) l → l ≠ [] →
    IsPlainText wide l.flatten → Words l l.flatten
  | [], _, hne, _ => absurd rfl hne
  | run :: l, .cons hne hkind hbefore hrest, _, htext => by
      have hword : ∀ ch ∈ run, ch ≠ ' ' := by
        rintro ch hch rfl
        exact hbefore (congrArg some (hkind ' ' hch))
      cases hrest with
      | nil =>
          simp only [List.flatten_cons, List.flatten_nil, List.append_nil]
          exact .last (htext.isWord hne rfl hword)
      | @cons _ kind' run' l' hne' hkind' hother hrest' =>
          have hfirst := kind_eq_word hne hkind fun ch hch =>
            ⟨hword ch hch, htext.not_break ch (by simp [hch])⟩
          obtain rfl : kind' = .spaces := by
            refine kind_eq_spaces hne' hkind' (fun ch hch => htext.not_break ch (by simp [hch])) ?_
            rintro rfl
            exact hother (congrArg some hfirst)
          obtain ⟨k, rfl⟩ := exists_spaces hne' hkind'
          simp only [List.flatten_cons] at htext ⊢
          have hne'' : l' ≠ [] := by
            rintro rfl
            refine htext.last ?_
            rw [List.replicate_succ']
            simp
          have hsub : IsPlainText wide l'.flatten := by
            refine IsPlainText.suffix (by simpa using htext) ?_ fun hspace =>
              kindOf_head_flatten hrest' hspace rfl
            rw [List.flatten_ne_nil_iff]
            cases hrest' with
            | nil => exact absurd rfl hne''
            | cons hne' => exact ⟨_, by simp, hne'⟩
          have hwords := words_of_alternates l' hrest' hne'' hsub
          rw [← List.append_assoc]
          exact .more k (htext.isWord hne rfl hword) hwords

theorem plainRuns_word (hs : IsWord s) :
    plainRuns column split (s :: l) p = plainRuns column split l (p.put s) := by
  have hne : s ≠ [' '] := by
    rintro rfl
    cases (hs.not_blank ' ' (by simp)).1
  simp [plainRuns, hne]

/-- The words of a plain scalar are written with a new line for some of the spaces between
them. -/
theorem plainRuns_wrote (column : Nat) (split : Bool) (h : Words l t)
    (hclean : ∀ ch ∈ t, IsClean wide ch) (p : Pen) (hp : Settled p) :
    ∃ w, Wrote p w (plainRuns column split l p) ∧ Settled (plainRuns column split l p) ∧
      Plain column t w ∧ (∀ ch ∈ w, IsClean wide ch) ∧ (split = false → w = t) := by
  induction h generalizing p with
  | @last s hs =>
      rw [plainRuns_word hs]
      exact ⟨s, wrote_put s p, ⟨hp.1, hp.2⟩, .word hs, hclean, fun _ => rfl⟩
  | @more s t l k hs h ih =>
      rw [plainRuns_word hs, plainRuns]
      have hclean' : ∀ ch ∈ t, IsClean wide ch := fun ch hch => hclean ch (by simp [hch])
      by_cases hfold : (List.replicate (k + 1) ' ' = [' '] && width < (p.put s).column &&
          split) = true
      · rw [if_pos hfold]
        simp only [Bool.and_eq_true, decide_eq_true_eq] at hfold
        obtain ⟨⟨hone, -⟩, hsplit⟩ := hfold
        have hline : (p.put s).toColumn column = _ := toColumn_line (.inl hp.not_fresh)
        obtain ⟨w, hw, hsettled, hplain, hclean'', -⟩ := ih hclean'
          { (p.put s).toColumn column with spaced := false, fresh := false } ⟨rfl, rfl⟩
        refine ⟨s ++ lineStart column ++ w, ((wrote_put s p).trans ?_).trans hw, hsettled, ?_, ?_,
          ?_⟩
        · rw [Wrote, hline]
        · rw [hone]
          exact .fold hs hplain
        · simp only [List.mem_append]
          rintro ch ((hch | hch) | hch)
          · exact hclean ch (by simp [hch])
          · exact isClean_lineStart ch hch
          · exact hclean'' ch hch
        · rw [hsplit]
          simp
      · rw [if_neg hfold]
        obtain ⟨w, hw, hsettled, hplain, hclean'', hsame⟩ :=
          ih hclean' ((p.put s).put (List.replicate (k + 1) ' ')) ⟨hp.1, hp.2⟩
        refine ⟨s ++ List.replicate (k + 1) ' ' ++ w,
          ((wrote_put s p).trans (wrote_put _ _)).trans hw, hsettled, .spaces hs k hplain, ?_, ?_⟩
        · intro ch hch
          rcases List.mem_append.mp hch with hch | hch
          · exact hclean ch (List.mem_append_left _ hch)
          · exact hclean'' ch hch
        · intro hsplit
          rw [hsame hsplit]

/-- A plain scalar is written behind a space where one is needed. -/
theorem plain_wrote (column : Nat) (split : Bool) (p : Pen) (h : canBePlain wide t = true)
    (hne : t ≠ []) :
    ∃ w, Wrote p ((if p.spaced then [] else [' ']) ++ w) (plain column split t p) ∧
      Settled (plain column split t p) ∧ Plain column t w ∧ (∀ ch ∈ w, IsClean wide ch) ∧
        (split = false → w = t) := by
  have htext := IsPlainText.of_canBePlain h
  have halternates : Alternates (some .spaces) (runs t) := by
    refine (alternates_runs t).behind fun ch hch hspaces => htext.head ?_
    rw [flatten_runs] at hch
    rw [hch]
    rw [kindOf_eq_spaces.mp hspaces]
  have hwords := words_of_alternates (runs t) halternates (by simpa [runs] using hne)
    (by rwa [flatten_runs])
  rw [flatten_runs] at hwords
  have hclean : ∀ ch ∈ t, IsClean wide ch := fun ch hch =>
    isClean_of_not_special (htext.not_special ch hch)
  obtain ⟨w, hw, hrest⟩ := plainRuns_wrote column split hwords hclean
    { (if p.spaced then p else p.put [' ']) with spaced := false, fresh := false } ⟨rfl, rfl⟩
  have hplain : plain column split t p = plainRuns column split (runs t)
      { (if p.spaced then p else p.put [' ']) with spaced := false, fresh := false } := by
    simp [plain, hne]
  rw [hplain]
  refine ⟨w, ?_, hrest⟩
  rw [Wrote, hw]
  cases p.spaced <;> simp [put]

end Pen

end SourceScan.Yaml
