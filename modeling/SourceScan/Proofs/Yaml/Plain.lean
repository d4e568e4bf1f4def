import SourceScan.Proofs.Yaml.Cursor

/-!
# Plain scalars read

The grammar of a plain scalar: words with spaces between them, one of which may stand as a
new line with its indentation.  The scalar ends at the colon after a key, or at a line that
is moved in less.
-/

namespace SourceScan.Yaml

structure IsWord (s : Text) : Prop where
  ne_nil : s ≠ []
  not_comment : s.head? ≠ some '#'
  not_blank : ∀ ch ∈ s, isBlankOrEnd ch = false ∧ IsFlat ch
  not_key : s.getLast? ≠ some ':'

/-- What is written for a plain scalar, `w`, and what it reads as, `t`; lines are continued at the
column `n`. -/
inductive Plain (n : Nat) : Text → Text → Prop
  | word {s : Text} (hs : IsWord s) : Plain n s s
  | spaces {s t w : Text} (hs : IsWord s) (k : Nat) (h : Plain n t w) :
      Plain n (s ++ List.replicate (k + 1) ' ' ++ t) (s ++ List.replicate (k + 1) ' ' ++ w)
  | fold {s t w : Text} (hs : IsWord s) (h : Plain n t w) :
      Plain n (s ++ [' '] ++ t) (s ++ lineStart n ++ w)

structure EndsPlain (indent : Int) (tail : Text) (fresh : Bool) (e : Nat) : Prop where
  run : plainRun false tail = []
  spaces : ∀ c : Cursor, c.rest = tail → ∃ spaces, plainSpaces c = (spaces, fresh, c.forward e) ∧
    (spaces = [] ∨ ((c.forward e).column : Int) < indent)

namespace Plain

open Cursor

variable {n : Nat} {c : Cursor} {s t w r tail : Text} {indent : Int}

theorem exists_word (h : Plain n t w) : ∃ s r, w = s ++ r ∧ IsWord s := by
  cases h with
  | word hs => exact ⟨_, [], by simp, hs⟩
  | spaces hs k h => exact ⟨_, _, List.append_assoc _ _ _, hs⟩
  | fold hs h => exact ⟨_, _, List.append_assoc _ _ _, hs⟩

theorem exists_head (h : IsWord s) :
    ∃ ch rest, s = ch :: rest ∧ ch ≠ '#' ∧ isBlankOrEnd ch = false := by
  obtain ⟨ch, rest, rfl⟩ := List.exists_cons_of_ne_nil h.ne_nil
  refine ⟨ch, rest, rfl, ?_, (h.not_blank ch (by simp)).1⟩
  simpa using h.not_comment

theorem plainRun_word (hs : ∀ ch ∈ s, isBlankOrEnd ch = false) (hlast : s.getLast? ≠ some ':')
    (hr : plainRun false r = []) : plainRun false (s ++ r) = s := by
  induction s with
  | nil => exact hr
  | cons ch s ih =>
      have hcolon : ¬(ch = ':' ∧ isBlankOrEnd ((s ++ r).headD '\x00') = true) := by
        rintro ⟨rfl, hblank⟩
        cases s with
        | nil => exact hlast rfl
        | cons d s =>
            have hd := hs d (by simp)
            simp [hd] at hblank
      have hrest : plainRun false (s ++ r) = s := by
        refine ih (fun d hd => hs d (by simp [hd])) ?_
        intro heq
        refine hlast ?_
        rw [List.getLast?_cons, heq]
        rfl
      rw [List.cons_append, plainRun]
      simp only [hs ch (by simp), hrest]
      simpa using hcolon

theorem plainRun_blank {ch : Char} (h : isBlankOrEnd ch = true) :
    plainRun false (ch :: r) = [] := by
  simp [plainRun, h]

theorem plainBreaks_spaces (hr : ∀ ch, r.head? = some ch → ch ≠ ' ' ∧ isBreak ch = false)
    (breaks : Text) {fuel : Nat} (hfuel : n < fuel) (h : c.rest = List.replicate n ' ' ++ r) :
    plainBreaks fuel breaks c = (some breaks, c.forward n) := by
  induction n generalizing c fuel with
  | zero =>
      obtain ⟨fuel, rfl⟩ : ∃ m, fuel = m + 1 := ⟨fuel - 1, by omega⟩
      have hhere : c.here ≠ ' ' ∧ isBreak c.here = false :=
        here_of_head? (q := fun ch => ch ≠ ' ' ∧ isBreak ch = false) h hr (by decide)
      simp [plainBreaks, hhere]
  | succ n ih =>
      obtain ⟨fuel, rfl⟩ : ∃ m, fuel = m + 1 := ⟨fuel - 1, by omega⟩
      have hrest : c.next.rest = List.replicate n ' ' ++ r := rest_next_cons h
      have hhere : c.here = ' ' := here_cons h
      rw [plainBreaks, if_pos hhere, ih (by omega) hrest, forward_succ]

theorem plainSpaces_spaces {k : Nat} (h : c.rest = List.replicate k ' ' ++ r)
    (hr : ∀ ch, r.head? = some ch → ch ≠ ' ' ∧ isBreak ch = false) :
    plainSpaces c = (List.replicate k ' ', false, c.forward k) := by
  have hspan : c.span (· = ' ') = (List.replicate k ' ', c.forward k) :=
    span_spaces h rfl fun ch hch => by simpa using (hr ch hch).1
  have hhere : isBreak (c.forward k).here = false :=
    here_of_head? (q := fun ch => isBreak ch = false) (rest_forward_spaces h)
      (fun ch hch => (hr ch hch).2) (by decide)
  simp [plainSpaces, hspan, hhere]

theorem plainSpaces_lineStart (h : c.rest = lineStart n ++ r)
    (hr : ∀ ch, r.head? = some ch → ch ≠ ' ' ∧ isBreak ch = false) :
    plainSpaces c = ([' '], true, c.forward (n + 1)) ∨
      n = 0 ∧ plainSpaces c = ([], true, c.forward (n + 1)) := by
  have hcons : c.rest = '\n' :: (List.replicate n ' ' ++ r) := h
  have hspan : c.span (· = ' ') = ([], c) := span_none hcons rfl
  have hbreak : isBreak c.here = true := by
    rw [here_cons hcons]
    decide
  have hfuel : n < c.next.rest.length + 1 := by
    rw [rest_next_cons hcons, List.length_append, List.length_replicate]
    omega
  have hbreaks : plainBreaks (c.next.rest.length + 1) [] c.next = (some [], c.next.forward n) :=
    plainBreaks_spaces hr [] hfuel (rest_next_cons hcons)
  by_cases hseparator : c.next.atSeparator = true
  · right
    have hzero : n = 0 := by
      cases n with
      | zero => rfl
      | succ n =>
          rw [atSeparator_eq_false (rest_next_cons hcons) (by decide) (by decide)] at hseparator
          cases hseparator
    subst hzero
    simp [plainSpaces, hspan, hbreak, lineBreak_cons hcons (by decide), hseparator, forward_succ]
  · left
    simp [plainSpaces, hspan, hbreak, lineBreak_cons hcons (by decide), hseparator, hbreaks,
      forward_succ, folded, breakText]

theorem plainScalar_word {fuel : Nat} (text spaces : Text) (fresh : Bool) (hs : IsWord s)
    (h : c.rest = s ++ r) (hr : plainRun false r = []) :
    plainScalar false indent (fuel + 1) text spaces fresh c =
      (let (more, fresh, d) := plainSpaces (c.forward s.length)
       if more.isEmpty || d.here = '#' || (d.column : Int) < indent then
         (text ++ spaces ++ s, fresh, d)
       else plainScalar false indent fuel (text ++ spaces ++ s) more fresh d) := by
  obtain ⟨ch, rest, hcons, hcomment, -⟩ := exists_head hs
  have hhere : c.here = ch := here_cons (by rw [h, hcons]; rfl)
  have hrun : plainRun false c.rest = s := by
    rw [h]
    exact plainRun_word (fun d hd => (hs.not_blank d hd).1) hs.not_key hr
  rw [plainScalar, hhere, if_neg hcomment, hrun]
  simp [hs.ne_nil]

theorem plainScalar_more {fuel : Nat} (text spaces more : Text) (fresh fresh' : Bool) {k : Nat}
    (hs : IsWord s) (h : c.rest = s ++ r) (hr : plainRun false r = [])
    (hmore : plainSpaces (c.forward s.length) = (more, fresh', c.forward (s.length + k)))
    (hne : more ≠ []) (hw : Plain n t w) (hrest : (c.forward (s.length + k)).rest = w ++ tail)
    (hcolumn : indent ≤ (c.forward (s.length + k)).column) :
    plainScalar false indent (fuel + 1) text spaces fresh c =
      plainScalar false indent fuel (text ++ spaces ++ s) more fresh'
        (c.forward (s.length + k)) := by
  obtain ⟨s', r', rfl, hs'⟩ := exists_word hw
  obtain ⟨ch, rest, rfl, hcomment, -⟩ := exists_head hs'
  have hhere : (c.forward (s.length + k)).here = ch := here_cons hrest
  rw [plainScalar_word text spaces fresh hs h hr, hmore]
  simp [hne, hhere, hcomment, Int.not_lt.mpr hcolumn]

theorem starts_word (h : Plain n t w) (tail : Text) :
    ∀ ch, (w ++ tail).head? = some ch → ch ≠ ' ' ∧ isBreak ch = false := by
  obtain ⟨s, r, rfl, hs⟩ := exists_word h
  obtain ⟨ch, rest, rfl, -, hblank⟩ := exists_head hs
  rintro d ⟨⟩
  simp only [isBlankOrEnd, isSpaceOrEnd, isBreakOrEnd, Bool.or_eq_false_iff,
    decide_eq_false_iff_not] at hblank
  exact ⟨hblank.2.1, hblank.2.2.1⟩

theorem plainScalar_eq (h : Plain n t w) {fresh : Bool} {e : Nat}
    (hend : EndsPlain indent tail fresh e) (hn : 0 < n) (hindent : indent ≤ n)
    (text spaces : Text) (fresh' : Bool) (c : Cursor) (fuel : Nat) (hrest : c.rest = w ++ tail)
    (hcolumn : indent ≤ c.column + 1) (hfuel : w.length < fuel) :
    plainScalar false indent fuel text spaces fresh' c =
      (text ++ spaces ++ t, fresh, c.forward (w.length + e)) := by
  -- Each round reads a word, so that the fuel lasts as long as the text.
  induction h generalizing text spaces fresh' c fuel with
  | @word s hs =>
      obtain ⟨fuel, rfl⟩ : ∃ m, fuel = m + 1 := ⟨fuel - 1, by omega⟩
      obtain ⟨more, hmore, hstop⟩ := hend.spaces (c.forward s.length) (rest_forward_append hrest)
      rw [← forward_add] at hmore hstop
      rw [plainScalar_word text spaces fresh' hs hrest hend.run, hmore]
      rcases hstop with rfl | hcolumn
      · simp
      · simp [hcolumn]
  | @spaces s t w hs k h ih =>
      obtain ⟨fuel, rfl⟩ : ∃ m, fuel = m + 1 := ⟨fuel - 1, by omega⟩
      simp only [List.append_assoc] at hrest
      have hspaces := plainSpaces_spaces (rest_forward_append hrest) (starts_word h tail)
      have hlength : (s ++ List.replicate (k + 1) ' ').length = s.length + (k + 1) := by simp
      have hboth : c.rest = (s ++ List.replicate (k + 1) ' ') ++ (w ++ tail) := by
        rw [hrest, List.append_assoc]
      have hnext := rest_forward_append hboth
      have hflat := (forward_flat hboth fun ch hch => by
        rcases List.mem_append.mp hch with hch | hch
        · exact (hs.not_blank ch hch).2
        · rw [(List.mem_replicate.mp hch).2]
          exact isFlat_space).2
      rw [hlength] at hnext hflat
      rw [← forward_add] at hspaces
      simp only [List.length_append, List.length_replicate] at hfuel
      rw [plainScalar_more text spaces _ fresh' false hs hrest (plainRun_blank (by decide)) hspaces
        (by simp) h hnext (by omega), ih _ _ _ _ _ hnext (by omega) (by omega), ← forward_add]
      simp [Nat.add_assoc]
  | @fold s t w hs h ih =>
      obtain ⟨fuel, rfl⟩ : ∃ m, fuel = m + 1 := ⟨fuel - 1, by omega⟩
      simp only [List.append_assoc] at hrest
      have hspaces : plainSpaces (c.forward s.length) =
          ([' '], true, (c.forward s.length).forward (n + 1)) := by
        refine (plainSpaces_lineStart (rest_forward_append hrest)
          (starts_word h tail)).resolve_right ?_
        rintro ⟨hzero, -⟩
        omega
      have hcolumn' := column_lineStart (rest_forward_append hrest)
      have hnext : (c.forward (s.length + (n + 1))).rest = w ++ tail := by
        have := rest_forward_append (t := s ++ lineStart n) (by simpa using hrest)
        simpa using this
      rw [← forward_add] at hspaces hcolumn'
      simp only [List.length_append, length_lineStart] at hfuel
      rw [plainScalar_more text spaces _ fresh' true hs hrest (plainRun_blank (by decide)) hspaces
        (by simp) h hnext (by omega), ih _ _ _ _ _ hnext (by omega) (by omega), ← forward_add]
      simp [Nat.add_assoc]

/-! ## What ends a plain scalar -/

theorem endsPlain_colon (hr : isBlankOrEnd (r.headD '\x00') = true) :
    EndsPlain indent (':' :: r) false 0 where
  run := by
    have hr : isBlankOrEnd (r.head?.getD '\x00') = true := by simpa using hr
    simp [plainRun, hr]
  spaces c h := by
    have hspaces : c.rest = List.replicate 0 ' ' ++ ':' :: r := by simpa using h
    refine ⟨[], plainSpaces_spaces hspaces ?_, .inl rfl⟩
    rintro ch ⟨⟩
    decide

theorem endsPlain_line (hn : (n : Int) < indent)
    (hr : ∀ ch, r.head? = some ch → ch ≠ ' ' ∧ isBreak ch = false) :
    EndsPlain indent (lineStart n ++ r) true (n + 1) where
  run := plainRun_blank (by decide)
  spaces c h := by
    rcases plainSpaces_lineStart h hr with hspaces | ⟨-, hspaces⟩
    · exact ⟨_, hspaces, .inr (by rw [column_lineStart h]; exact hn)⟩
    · exact ⟨_, hspaces, .inl rfl⟩

/-! ## What begins a plain scalar -/

theorem common_word (h : Plain n t w) :
    ∃ s t' w', t = s ++ t' ∧ w = s ++ w' ∧ IsWord s ∧ isBlankOrEnd (t'.headD '\x00') = true ∧
      (∀ ch, w'.head? = some ch → isBlankOrEnd ch = true) := by
  cases h with
  | word hs => exact ⟨t, [], [], by simp, by simp, hs, by decide, by simp⟩
  | @spaces s t w hs k h =>
      refine ⟨s, List.replicate (k + 1) ' ' ++ t, List.replicate (k + 1) ' ' ++ w, by simp, by simp,
        hs, rfl, ?_⟩
      rw [List.replicate_succ]
      rintro ch ⟨⟩
      decide
  | @fold s t w hs h =>
      refine ⟨s, ' ' :: t, lineStart n ++ w, by simp, by simp, hs, rfl, ?_⟩
      rintro ch ⟨⟩
      decide

theorem isPrefixOf_append {p s r : Text} (hr : ∀ ch ∈ p, r.head? ≠ some ch)
    (h : p.isPrefixOf (s ++ r) = true) : p.isPrefixOf s = true := by
  induction s generalizing p with
  | nil =>
      cases p with
      | nil => rfl
      | cons d p =>
          cases r with
          | nil => exact h
          | cons ch r =>
              simp only [List.nil_append, List.isPrefixOf, Bool.and_eq_true, beq_iff_eq] at h
              exact absurd (by rw [h.1]; rfl) (hr d (by simp))
  | cons ch s ih =>
      cases p with
      | nil => rfl
      | cons d p =>
          simp only [List.cons_append, List.isPrefixOf, Bool.and_eq_true] at h ⊢
          exact ⟨h.1, ih (fun e he => hr e (by simp [he])) h.2⟩

theorem not_separator (h : Plain n t w) (hmark : hasMark t = false)
    (htail : tail.head? ≠ some '-' ∧ tail.head? ≠ some '.') {c : Cursor}
    (hc : c.rest = w ++ tail) : c.atSeparator = false := by
  obtain ⟨s, t', w', rfl, rfl, -, -, hw'⟩ := common_word h
  simp only [hasMark, Bool.or_eq_false_iff] at hmark
  have hnone : ∀ ch, ch = '-' ∨ ch = '.' → (List.replicate 3 ch).isPrefixOf (s ++ t') = false →
      c.rest.take 3 ≠ List.replicate 3 ch := by
    intro ch hch hprefix htake
    have hhead : (w' ++ tail).head? ≠ some ch := by
      cases w' with
      | nil => rcases hch with rfl | rfl <;> simp [htail]
      | cons d w' =>
          have hblank := hw' d rfl
          rintro ⟨⟩
          rcases hch with rfl | rfl <;> (revert hblank; decide)
    have hmine : (List.replicate 3 ch).isPrefixOf (s ++ (w' ++ tail)) = true := by
      rw [List.isPrefixOf_iff_prefix, ← htake, hc, List.append_assoc]
      exact List.take_prefix _ _
    have hword := isPrefixOf_append (fun d hd => by rwa [(List.mem_replicate.mp hd).2]) hmine
    rw [List.isPrefixOf_iff_prefix] at hword
    rw [← Bool.not_eq_true, List.isPrefixOf_iff_prefix] at hprefix
    exact hprefix (hword.trans (List.prefix_append _ _))
  have hdash := hnone '-' (.inl rfl) hmark.1.1.1
  have hdot := hnone '.' (.inr rfl) hmark.1.1.2
  rw [atSeparator]
  simp only [Bool.and_eq_false_iff, Bool.or_eq_false_iff, decide_eq_false_iff_not]
  exact .inl ⟨hdash, hdot⟩

theorem exists_front (h : Plain n t w) (hmark : hasMark t = false) (tail : Text) :
    ∃ ch r, w ++ tail = ch :: r ∧ isBlankOrEnd ch = false ∧ leadingMarks.contains ch = false ∧
      (ch = '?' ∨ ch = ':' ∨ ch = '-' → isBlankOrEnd (r.headD '\x00') = false) := by
  obtain ⟨s, t', w', rfl, rfl, hs, ht', -⟩ := common_word h
  obtain ⟨ch, rest, rfl, -, hblank⟩ := exists_head hs
  simp only [hasMark, hasLeadingMark, List.cons_append, Bool.or_eq_false_iff,
    Bool.and_eq_false_iff, decide_eq_false_iff_not] at hmark
  refine ⟨ch, rest ++ w' ++ tail, by simp, hblank, hmark.1.2.1, fun hsign => ?_⟩
  cases rest with
  | nil =>
      have hset : (t'.head?.all setsOff) = false := by
        rcases hmark.1.2.2 with hno | hset
        · rcases hsign with rfl | rfl | rfl <;> simp at hno
        · simpa using hset
      cases t' with
      | nil => cases hset
      | cons d t' =>
          simp only [List.head?_cons, Option.all_some, setsOff] at hset
          simp only [List.headD_cons, hset] at ht'
          cases ht'
  | cons d rest => exact (hs.not_blank d (by simp)).1

end Plain

end SourceScan.Yaml
