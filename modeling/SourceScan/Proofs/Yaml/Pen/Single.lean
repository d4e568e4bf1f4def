import SourceScan.Proofs.Yaml.Pen.Runs

/-!
# Single-quoted scalars written

Between single quotes a row of line ends is written with a line feed more if it begins with
one.  What is read back is the text, but for the rows that begin with a next-line character
and for the next-line characters in them.
-/

namespace SourceScan.Yaml

open Pen

def rereadBreaks : Text → Text
  | [] => []
  | b :: bs =>
      if b = '\n' then (b :: bs).map breakText
      else folded [breakText b] (bs.map breakText)

def rereadRun (run : Text) : Text := if run.any isWrittenBreak then rereadBreaks run else run

def reread (t : Text) : Text := (runs t).flatMap rereadRun

/-! ## Texts that read back as they are -/

variable {wide split first : Bool} {s t w : Text} {l : List Text} {column n : Nat} {p : Pen}
  {ch : Char}

theorem breakText_ne (ch : Char) : breakText ch ≠ '\x85' := by
  unfold breakText
  split
  · decide
  · assumption

theorem breakText_of_ne (h : ch ≠ '\x85') : breakText ch = ch := if_neg h

theorem map_breakText (h : '\x85' ∉ s) : s.map breakText = s := by
  refine (List.map_congr_left fun ch hch => breakText_of_ne ?_).trans (List.map_id _)
  rintro rfl
  exact h hch

theorem rereadBreaks_of_notMem (h : '\x85' ∉ s) : rereadBreaks s = s := by
  cases s with
  | nil => rfl
  | cons b bs =>
      simp only [List.mem_cons, not_or] at h
      have hb := breakText_of_ne (Ne.symm h.1)
      rw [rereadBreaks]
      split
      · rw [List.map_cons, hb, map_breakText h.2]
      · next hfeed => simp [folded, hb, hfeed, map_breakText h.2]

theorem notMem_rereadBreaks (s : Text) : '\x85' ∉ rereadBreaks s := by
  have hmap : ∀ s : Text, '\x85' ∉ s.map breakText := by
    intro s hmem
    obtain ⟨ch, -, hch⟩ := List.mem_map.mp hmem
    exact breakText_ne ch hch
  cases s with
  | nil => simp [rereadBreaks]
  | cons b bs =>
      rw [rereadBreaks]
      split
      · exact hmap _
      · rw [folded]
        split
        · simpa [Ne.symm (breakText_ne b)] using hmap bs
        · split
          · decide
          · exact hmap bs

theorem reread_of_notMem (h : '\x85' ∉ t) : reread t = t := by
  have hruns : ∀ run ∈ runs t, rereadRun run = run := by
    intro run hrun
    rw [rereadRun]
    split
    · refine rereadBreaks_of_notMem fun hmem => h ?_
      rw [← flatten_runs t]
      exact List.mem_flatten_of_mem hrun hmem
    · rfl
  rw [reread, List.flatMap, List.map_congr_left hruns, List.map_id', flatten_runs]

theorem notMem_reread (t : Text) : '\x85' ∉ reread t := by
  intro hmem
  obtain ⟨run, -, hrun⟩ := List.mem_flatMap.mp hmem
  rw [rereadRun] at hrun
  split at hrun
  · exact notMem_rereadBreaks run hrun
  · next hbreak =>
      refine hbreak (List.any_eq_true.mpr ⟨_, hrun, ?_⟩)
      decide

theorem reread_eq_self : reread t = t ↔ '\x85' ∉ t := by
  refine ⟨fun h => ?_, reread_of_notMem⟩
  rw [← h]
  exact notMem_reread t

/-! ## What the pen writes -/

/-- The runs of a text between single quotes: behind spaces and behind line ends comes a word. -/
inductive Rows : List Text → Prop
  | nil : Rows []
  | word {s : Text} {l : List Text} (hs : ∀ ch ∈ s, isBlankOrEnd ch = false)
      (hbreak : ∀ ch ∈ s, isWrittenBreak ch = false) (h : Rows l) : Rows (s :: l)
  | spaces {l : List Text} (k : Nat) (hnext : Light l.flatten) (h : Rows l) :
      Rows (List.replicate (k + 1) ' ' :: l)
  | breaks {b : Char} {bs : Text} {l : List Text} (hb : ∀ ch ∈ b :: bs, isWrittenBreak ch = true)
      (hnext : Light l.flatten) (h : Rows l) : Rows ((b :: bs) :: l)

theorem hasPair_append {p q : Char → Bool} {s r : Text} (h : hasPair p q (s ++ r) = false) :
    hasPair p q r = false := by
  induction s with
  | nil => exact h
  | cons c s ih =>
      refine ih ?_
      cases hrest : s ++ r with
      | nil => rfl
      | cons d rest =>
          rw [List.cons_append, hrest, hasPair, Bool.or_eq_false_iff] at h
          exact h.2

theorem hasPair_behind {p q : Char → Bool} {c : Char} {s r : Text}
    (h : hasPair p q (s ++ c :: ch :: r) = false) (hc : p c = true) : q ch = false := by
  have hpair := hasPair_append h
  rw [hasPair, hc, Bool.true_and, Bool.or_eq_false_iff] at hpair
  exact hpair.1

structure IsQuotable (wide : Bool) (t : Text) : Prop where
  not_special : ∀ ch ∈ t, isSpecial wide ch = false
  no_space_behind : hasPair isWrittenBreak (· = ' ') t = false
  no_break_behind : hasPair (· = ' ') isWrittenBreak t = false

theorem IsQuotable.of_canBeSingleQuoted (h : canBeSingleQuoted wide t = true) :
    IsQuotable wide t := by
  simp only [canBeSingleQuoted, Bool.and_eq_true, Bool.not_eq_true', List.any_eq_false] at h
  exact ⟨fun ch hch => by simpa using h.1.1 ch hch, h.1.2, h.2⟩

theorem IsQuotable.suffix {r : Text} (h : IsQuotable wide (s ++ r)) : IsQuotable wide r :=
  ⟨fun ch hch => h.not_special ch (List.mem_append_right _ hch), hasPair_append h.2,
    hasPair_append h.3⟩

/-- Behind spaces or line ends the text goes on with a word, for neither stands beside the other. -/
theorem light_of_alternates {kind : RunKind} {run : Text} (h : Alternates (some kind) l)
    (hne : run ≠ []) (hkind : ∀ ch ∈ run, kindOf ch = kind) (hother : kind ≠ .word)
    (htext : IsQuotable wide (run ++ l.flatten)) : Light l.flatten := by
  intro ch hch
  have hspecial := htext.not_special ch (List.mem_append_right _ (List.mem_of_mem_head? hch))
  have hnext := kindOf_head_flatten h hch
  obtain ⟨rest, hrest⟩ : ∃ rest, l.flatten = ch :: rest := List.head?_eq_some_iff.mp hch
  obtain ⟨pre, c, rfl⟩ : ∃ pre c, run = pre ++ [c] :=
    ⟨run.dropLast, run.getLast hne, (List.dropLast_append_getLast hne).symm⟩
  have hc := hkind c (by simp)
  rw [hrest, List.append_assoc, List.singleton_append] at htext
  suffices hword : kindOf ch = .word by
    obtain ⟨hspace, hbreak⟩ := kindOf_eq_word.mp hword
    exact isBlankOrEnd_of_not_special hspecial hbreak hspace
  cases kind with
  | word => exact absurd rfl hother
  | spaces =>
      cases hch' : kindOf ch with
      | word => rfl
      | spaces => exact absurd hch' hnext
      | breaks =>
          have hpair := hasPair_behind htext.no_break_behind (by simpa using kindOf_eq_spaces.mp hc)
          rw [kindOf_eq_breaks.mp hch'] at hpair
          cases hpair
  | breaks =>
      cases hch' : kindOf ch with
      | word => rfl
      | breaks => exact absurd hch' hnext
      | spaces =>
          have hpair := hasPair_behind htext.no_space_behind (kindOf_eq_breaks.mp hc)
          simp [kindOf_eq_spaces.mp hch'] at hpair

theorem rows_of_alternates {before : Option RunKind} (h : Alternates before l)
    (htext : IsQuotable wide l.flatten) : Rows l := by
  induction h with
  | nil => exact .nil
  | @cons before kind run l hne hkind hbefore h ih =>
      rw [List.flatten_cons] at htext
      have hrows := ih htext.suffix
      have hlight : kind ≠ .word → Light l.flatten := fun hother =>
        light_of_alternates h hne hkind hother htext
      cases kind with
      | word =>
          refine .word (fun ch hch => ?_) (fun ch hch => ?_) hrows
          all_goals obtain ⟨hspace, hbreak⟩ := kindOf_eq_word.mp (hkind ch hch)
          · exact isBlankOrEnd_of_not_special
              (htext.not_special ch (List.mem_append_left _ hch)) hbreak hspace
          · exact hbreak
      | spaces =>
          obtain ⟨k, rfl⟩ := exists_spaces hne hkind
          exact .spaces k (hlight nofun) hrows
      | breaks =>
          obtain ⟨b, bs, rfl⟩ := List.exists_cons_of_ne_nil hne
          exact .breaks (fun ch hch => kindOf_eq_breaks.mp (hkind ch hch)) (hlight nofun) hrows

theorem Quoted.doubled (hs : ∀ ch ∈ s, isBlankOrEnd ch = false) (h : Quoted false n t w) :
    Quoted false n (s ++ t) (quotesDoubled s ++ w) := by
  induction s with
  | nil => exact h
  | cons ch s ih =>
      have ih := ih fun d hd => hs d (by simp [hd])
      by_cases hquote : ch = '\''
      · subst hquote
        exact .quote rfl ih
      · have hchar : quotesDoubled (ch :: s) = ch :: quotesDoubled s := by
          simp [quotesDoubled, hquote]
        rw [hchar]
        exact .char (hs ch (by simp)) hquote (by simp) ih

theorem Quoted.row {double : Bool} (k : Nat) (hw : Light w) (h : Quoted double n t w) :
    Quoted double n (List.replicate (k + 1) ' ' ++ t) (List.replicate (k + 1) ' ' ++ w) := by
  have hhead : ∀ k ch, (List.replicate k ' ' ++ w).head? = some ch → isBreak ch = false := by
    intro k ch hch
    cases k with
    | zero => exact (hw.not_blank hch).2.1
    | succ k =>
        cases hch
        decide
  induction k with
  | zero => exact .space (hhead 0) h
  | succ k ih => exact .space (hhead (k + 1)) ih

namespace Pen

theorem quotesDoubled_spaces (k : Nat) :
    quotesDoubled (List.replicate k ' ') = List.replicate k ' ' := by
  induction k with
  | zero => rfl
  | succ k ih => rw [List.replicate_succ]; exact congrArg (' ' :: ·) ih

theorem mem_quotesDoubled : ch ∈ quotesDoubled s ↔ ch ∈ s := by
  simp only [quotesDoubled, List.mem_flatMap]
  constructor
  · rintro ⟨d, hd, hch⟩
    split at hch <;> simp_all
  · intro hch
    refine ⟨ch, hch, ?_⟩
    split <;> simp_all

theorem quotesDoubled_append (s t : Text) :
    quotesDoubled (s ++ t) = quotesDoubled s ++ quotesDoubled t :=
  List.flatMap_append

theorem foldl_putBreak (s out : Text) :
    s.foldl (fun (p : Pen) c => p.putBreak c) ⟨out, 0, true, true⟩ =
      ⟨s.reverse ++ out, 0, true, true⟩ := by
  induction s generalizing out with
  | nil => rfl
  | cons ch s ih =>
      rw [List.foldl_cons, putBreak, ih]
      simp

theorem putBreaks_eq {b : Char} {bs : Text} (hcolumn : 0 < column) :
    p.putBreaks column (b :: bs) =
      ⟨(((if b = '\n' then ['\n'] else []) ++ b :: bs) ++
        List.replicate column ' ').reverse ++ p.out, column, true, true⟩ := by
  have hfold : ∀ p : Pen, (b :: bs).foldl (fun (p : Pen) c => p.putBreak c) p =
      ⟨(b :: bs).reverse ++ p.out, 0, true, true⟩ := by
    intro p
    rw [List.foldl_cons, putBreak, foldl_putBreak]
    simp
  rw [putBreaks, hfold, toColumn_pad rfl hcolumn]
  by_cases hfeed : b = '\n' <;> simp [hfeed, putBreak]

theorem fold_rereadBreaks {b : Char} {bs : Text} (hb : ∀ ch ∈ b :: bs, isWrittenBreak ch = true)
    (hw : Light w) (h : Quoted false n t w) :
    Quoted false n (rereadBreaks (b :: bs) ++ t)
      (((if b = '\n' then ['\n'] else []) ++ b :: bs) ++ List.replicate n ' ' ++ w) := by
  rw [rereadBreaks]
  by_cases hfeed : b = '\n'
  · subst hfeed
    have hfold : Quoted false n _ ('\n' :: (('\n' :: bs) ++ List.replicate n ' ' ++ w)) :=
      .fold rfl (by decide) hb hw h
    simpa [folded, breakText] using hfold
  · have hfold : Quoted false n _ (b :: (bs ++ List.replicate n ' ' ++ w)) :=
      .fold rfl (hb b (by simp)) (fun ch hch => hb ch (by simp [hch])) hw h
    simpa [hfeed] using hfold

structure WritesRows (wide split : Bool) (column : Nat) (l : List Text) (w : Text) : Prop where
  quoted : Quoted false column (l.flatMap rereadRun) w
  light : Light l.flatten → Light w
  clean : ∀ ch ∈ w, IsClean wide ch
  same : split = false → (∀ ch ∈ l.flatten, isWrittenBreak ch = false) →
    w = quotesDoubled l.flatten

namespace WritesRows

theorem nil : WritesRows wide split column [] [] :=
  ⟨.nil, id, by simp, fun _ _ => rfl⟩

theorem word (h : WritesRows wide split column l w) (hs : ∀ ch ∈ s, isBlankOrEnd ch = false)
    (hbreak : ∀ ch ∈ s, isWrittenBreak ch = false) (hclean : ∀ ch ∈ s, IsClean wide ch) :
    WritesRows wide split column (s :: l) (quotesDoubled s ++ w) where
  quoted := by
    have hread : rereadRun s = s := if_neg (by simpa using hbreak)
    rw [List.flatMap_cons, hread]
    exact h.quoted.doubled hs
  light hlight := by
    cases s with
    | nil => exact h.light hlight
    | cons d s =>
        intro ch hch
        have hmem : ch ∈ quotesDoubled (d :: s) := by
          have hd : ∃ rest, quotesDoubled (d :: s) = d :: rest := by
            by_cases hquote : d = '\'' <;> simp [quotesDoubled, hquote]
          obtain ⟨rest, hrest⟩ := hd
          rw [hrest] at hch ⊢
          cases hch
          simp
        exact hs ch (mem_quotesDoubled.mp hmem)
  clean ch hch := by
    rcases List.mem_append.mp hch with hch | hch
    · exact hclean ch (mem_quotesDoubled.mp hch)
    · exact h.clean ch hch
  same hsplit hflat := by
    rw [List.flatten_cons, quotesDoubled_append,
      h.same hsplit fun ch hch => hflat ch (by simp [hch])]

theorem rereadRun_spaces (k : Nat) :
    rereadRun (List.replicate k ' ') = List.replicate k ' ' := by
  refine if_neg ?_
  rw [Bool.not_eq_true, List.any_eq_false]
  intro ch hch
  rw [(List.mem_replicate.mp hch).2]
  decide

theorem not_light_spaces {k : Nat} : ¬Light (List.replicate (k + 1) ' ' :: l).flatten := by
  intro hlight
  cases hlight ' ' rfl

theorem spaces (h : WritesRows wide split column l w) (k : Nat) (hnext : Light l.flatten) :
    WritesRows wide split column (List.replicate (k + 1) ' ' :: l)
      (List.replicate (k + 1) ' ' ++ w) where
  quoted := by
    rw [List.flatMap_cons, rereadRun_spaces]
    exact h.quoted.row k (h.light hnext)
  light hlight := absurd hlight not_light_spaces
  clean ch hch := by
    rcases List.mem_append.mp hch with hch | hch
    · rw [(List.mem_replicate.mp hch).2]
      exact isClean_space
    · exact h.clean ch hch
  same hsplit hflat := by
    rw [List.flatten_cons, quotesDoubled_append, quotesDoubled_spaces,
      h.same hsplit fun ch hch => hflat ch (List.mem_append_right _ hch)]

theorem fold (h : WritesRows wide true column l w) (hnext : Light l.flatten) :
    WritesRows wide true column ([' '] :: l) (lineStart column ++ w) where
  quoted := by
    have hfold : Quoted false column _ ('\n' :: ([] ++ List.replicate column ' ' ++ w)) :=
      .fold rfl (by decide) (by simp) (h.light hnext) h.quoted
    exact hfold
  light hlight := absurd hlight (not_light_spaces (k := 0))
  clean ch hch := by
    rcases List.mem_append.mp hch with hch | hch
    · exact isClean_lineStart ch hch
    · exact h.clean ch hch
  same hsplit := by cases hsplit

theorem breaks {b : Char} {bs : Text} (h : WritesRows wide split column l w)
    (hb : ∀ ch ∈ b :: bs, isWrittenBreak ch = true) (hnext : Light l.flatten)
    (hclean : ∀ ch ∈ b :: bs, IsClean wide ch) :
    WritesRows wide split column ((b :: bs) :: l)
      (((if b = '\n' then ['\n'] else []) ++ b :: bs) ++ List.replicate column ' ' ++ w) where
  quoted := by
    have hread : rereadRun (b :: bs) = rereadBreaks (b :: bs) := if_pos (by simp [hb b])
    rw [List.flatMap_cons, hread]
    exact fold_rereadBreaks hb (h.light hnext) h.quoted
  light hlight := by
    have hblank := hlight b rfl
    rw [Quoted.isBlankOrEnd_of_isBreak (isBreak_of_isWrittenBreak (hb b (by simp)))] at hblank
    cases hblank
  clean ch hch := by
    rcases List.mem_append.mp hch with hch | hch
    · rcases List.mem_append.mp hch with hch | hch
      · rcases List.mem_append.mp hch with hch | hch
        · split at hch
          · rw [List.mem_singleton.mp hch]
            exact ⟨by decide, by decide, fun _ => by decide⟩
          · cases hch
        · exact hclean ch hch
      · rw [(List.mem_replicate.mp hch).2]
        exact isClean_space
    · exact h.clean ch hch
  same _ hflat := by
    have hnot := hflat b (by simp)
    rw [hb b (by simp)] at hnot
    cases hnot

end WritesRows

theorem singleRuns_wrote (split first : Bool) (p : Pen) (h : Rows l) (hpos : 0 < column)
    (hcolumn : column ≤ width) (hclean : ∀ ch ∈ l.flatten, IsClean wide ch) :
    ∃ w, Wrote p w (singleRuns column split first l p) ∧ WritesRows wide split column l w := by
  induction h generalizing first p with
  | nil => exact ⟨[], Wrote.refl p, .nil⟩
  | @word s l hs hbreak h ih =>
      have hany : s.any isWrittenBreak = false := by
        rw [List.any_eq_false]
        simpa using hbreak
      have hne : s ≠ [' '] := by
        rintro rfl
        cases hs ' ' (by simp)
      obtain ⟨w, hw, hrows⟩ := ih false (p.put (quotesDoubled s))
        fun ch hch => hclean ch (by simp [hch])
      refine ⟨quotesDoubled s ++ w, ?_,
        hrows.word hs hbreak fun ch hch => hclean ch (by simp [hch])⟩
      simpa [singleRuns, hany, hne] using (wrote_put _ p).trans hw
  | @spaces l k hnext h ih =>
      have hany : (List.replicate (k + 1) ' ').any isWrittenBreak = false := by
        rw [List.any_eq_false]
        intro ch hch
        rw [(List.mem_replicate.mp hch).2]
        decide
      have hclean' : ∀ ch ∈ l.flatten, IsClean wide ch := fun ch hch =>
        hclean ch (List.mem_append_right _ hch)
      rw [singleRuns, if_neg (by rw [hany]; decide)]
      -- A single space that is far enough to the right becomes a new line.
      split
      · next hfold =>
          simp only [Bool.and_eq_true, decide_eq_true_eq] at hfold
          obtain ⟨⟨⟨⟨hone, hwidth⟩, rfl⟩, -⟩, -⟩ := hfold
          obtain ⟨w, hw, hrows⟩ := ih false (p.toColumn column) hclean'
          have hline : Wrote p (lineStart column) (p.toColumn column) := by
            rw [Wrote, toColumn_line (.inr (.inl (by omega)))]
          rw [hone]
          exact ⟨_, hline.trans hw, hrows.fold hnext⟩
      · obtain ⟨w, hw, hrows⟩ := ih false
          (p.put (quotesDoubled (List.replicate (k + 1) ' '))) hclean'
        refine ⟨List.replicate (k + 1) ' ' ++ w, ?_, hrows.spaces k hnext⟩
        rw [quotesDoubled_spaces] at hw ⊢
        exact (wrote_put _ p).trans hw
  | @breaks b bs l hb hnext h ih =>
      have hany : (b :: bs).any isWrittenBreak = true := by simp [hb b]
      obtain ⟨w, hw, hrows⟩ := ih false (p.putBreaks column (b :: bs))
        fun ch hch => hclean ch (List.mem_append_right _ hch)
      refine ⟨_, ?_, hrows.breaks hb hnext fun ch hch => hclean ch (List.mem_append_left _ hch)⟩
      rw [singleRuns, if_pos hany]
      refine Wrote.trans ?_ hw
      rw [Wrote, putBreaks_eq hpos]

theorem single_wrote (split : Bool) (p : Pen) (h : canBeSingleQuoted wide t = true)
    (hpos : 0 < column) (hcolumn : column ≤ width) :
    ∃ w, Wrote p ((if p.spaced then [] else [' ']) ++ ('\'' :: w ++ ['\'']))
        (single column split t p) ∧
      Settled (single column split t p) ∧ Quoted false column (reread t) w ∧
      (∀ ch ∈ w, IsClean wide ch) ∧
      (split = false → (∀ ch ∈ t, isWrittenBreak ch = false) → w = quotesDoubled t) := by
  have htext := IsQuotable.of_canBeSingleQuoted h
  have hrows := rows_of_alternates (alternates_runs t) (by rwa [flatten_runs])
  obtain ⟨w, hw, hquoted, -, hclean, hsame⟩ := singleRuns_wrote split true
    (p.mark ['\'']) hrows hpos hcolumn fun ch hch =>
      isClean_of_not_special (htext.not_special ch (by rwa [flatten_runs] at hch))
  rw [flatten_runs] at hsame
  refine ⟨w, ?_, ⟨rfl, rfl⟩, hquoted, hclean, hsame⟩
  have hclose := ((wrote_mark ['\''] p).trans hw).trans (wrote_put ['\''] _)
  simp only [List.append_assoc] at hclose ⊢
  exact hclose

end Pen

end SourceScan.Yaml
