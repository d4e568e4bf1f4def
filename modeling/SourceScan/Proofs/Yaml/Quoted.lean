import SourceScan.Proofs.Yaml.Cursor

/-!
# Quoted scalars read

The grammar of what stands between the quotes of a scalar, next to what it reads as.  A row
of line breaks reads folded, a line that ends in a backslash goes on after the indentation,
and all else reads as the characters that stand there or that the escapes name.
-/

namespace SourceScan.Yaml

def quoteOf (double : Bool) : Char := if double then '"' else '\''

def IsEscape (ch : Char) (e : Text) : Prop :=
  (∃ x, e = ['\\', x] ∧ escaped? x = some ch) ∨
    ∃ x ds, e = '\\' :: x :: ds ∧ escaped? x = none ∧ codeDigits? x = some ds.length ∧
      (ds.filterMap hexDigit?).length = ds.length ∧
      charOfCode (Numeral.ofDigits 16 (ds.filterMap hexDigit?)) = .ok ch

def Light (w : Text) : Prop := ∀ ch, w.head? = some ch → isBlankOrEnd ch = false

theorem not_blank_of_isBlankOrEnd {ch : Char} (h : isBlankOrEnd ch = false) :
    isBlank ch = false ∧ isBreak ch = false ∧ isEnd ch = false := by
  simp only [isBlankOrEnd, isSpaceOrEnd, isBreakOrEnd, Bool.or_eq_false_iff] at h
  simp [isBlank, h]

theorem Light.not_blank {w : Text} (hw : Light w) {ch : Char} (h : w.head? = some ch) :
    isBlank ch = false ∧ isBreak ch = false ∧ isEnd ch = false :=
  not_blank_of_isBlankOrEnd (hw ch h)

/-- What stands between the quotes, `w`, and what it reads as, `t`; lines are continued at the
column `n`. -/
inductive Quoted (double : Bool) (n : Nat) : Text → Text → Prop
  | nil : Quoted double n [] []
  | char {ch : Char} {t w : Text} (hblank : isBlankOrEnd ch = false)
      (hquote : ch ≠ quoteOf double) (hescape : double = true → ch ≠ '\\')
      (h : Quoted double n t w) : Quoted double n (ch :: t) (ch :: w)
  | space {t w : Text} (hw : ∀ ch, w.head? = some ch → isBreak ch = false)
      (h : Quoted double n t w) : Quoted double n (' ' :: t) (' ' :: w)
  | quote {t w : Text} (hsingle : double = false) (h : Quoted double n t w) :
      Quoted double n ('\'' :: t) ('\'' :: '\'' :: w)
  | escape {ch : Char} {e t w : Text} (hdouble : double = true) (he : IsEscape ch e)
      (h : Quoted double n t w) : Quoted double n (ch :: t) (e ++ w)
  | fold {b : Char} {bs t w : Text} (hsingle : double = false) (hb : isWrittenBreak b = true)
      (hbs : ∀ ch ∈ bs, isWrittenBreak ch = true) (hw : Light w) (h : Quoted double n t w) :
      Quoted double n (folded [breakText b] (bs.map breakText) ++ t)
        (b :: (bs ++ List.replicate n ' ' ++ w))
  | join {t w : Text} (hdouble : double = true) (hw : Light w) (h : Quoted double n t w) :
      Quoted double n t ('\\' :: lineStart n ++ w)

namespace Quoted

open Cursor

variable {double : Bool} {n : Nat} {c : Cursor} {ch : Char} {r acc : Text}

theorem isBlankOrEnd_quoteOf : isBlankOrEnd (quoteOf double) = false := by
  cases double <;> decide

theorem isBlankOrEnd_of_isBreak (h : isBreak ch = true) : isBlankOrEnd ch = true := by
  simp [isBlankOrEnd, isSpaceOrEnd, isBreakOrEnd, h]

theorem light_append_quote {w : Text} (hw : Light w) (double : Bool) (tail : Text) :
    Light (w ++ quoteOf double :: tail) := by
  cases w with
  | nil =>
      rintro ch ⟨⟩
      exact isBlankOrEnd_quoteOf
  | cons ch w => exact hw

/-! ## Breaks and spaces -/

/-- After a first break the reader takes the breaks and the indentation before the next line
with something on it. -/
theorem quotedBreaks_append (acc : Text) (hn : 0 < n) {bs : Text}
    (hbs : ∀ ch ∈ bs, isWrittenBreak ch = true) (hr : Light r) (fuel : Nat)
    (hfuel : bs.length < fuel) (h : c.rest = bs ++ List.replicate n ' ' ++ r) :
    quotedBreaks fuel acc c = .ok (acc ++ bs.map breakText, c.forward (bs.length + n)) := by
  induction bs generalizing acc c fuel with
  | nil =>
      obtain ⟨fuel, rfl⟩ : ∃ k, fuel = k + 1 := ⟨fuel - 1, by simp at hfuel; omega⟩
      obtain ⟨m, rfl⟩ : ∃ m, n = m + 1 := ⟨n - 1, by omega⟩
      simp only [List.nil_append] at h
      have hspace : c.rest = ' ' :: (List.replicate m ' ' ++ r) := by
        simpa [List.replicate_succ] using h
      have hseparator : c.atSeparator = false :=
        atSeparator_eq_false hspace (by decide) (by decide)
      have hskip : c.skip isBlank = c.forward (m + 1) :=
        skip_spaces h (by decide) fun ch hch => (hr.not_blank hch).1
      have hhere : isBreak (c.forward (m + 1)).here = false :=
        here_of_head? (q := fun ch => isBreak ch = false) (rest_forward_spaces h)
          (fun ch hch => (hr.not_blank hch).2.1) (by decide)
      simp [quotedBreaks, hseparator, hskip, hhere]
  | cons b bs ih =>
      obtain ⟨fuel, rfl⟩ : ∃ k, fuel = k + 1 := ⟨fuel - 1, by simp at hfuel; omega⟩
      have hb := hbs b (by simp)
      have hne : b ≠ '-' ∧ b ≠ '.' := by
        constructor <;> (rintro rfl; revert hb; decide)
      have hseparator : c.atSeparator = false := atSeparator_eq_false h hne.1 hne.2
      have hblank : isBlank b = false := by
        simp only [isWrittenBreak, Bool.or_eq_true, decide_eq_true_eq] at hb
        rcases hb with ((rfl | rfl) | rfl) | rfl <;> decide
      have hskip : c.skip isBlank = c := skip_none h hblank
      have hrest : c.next.rest = bs ++ List.replicate n ' ' ++ r := rest_next_cons h
      have hnext := ih (acc ++ [breakText b]) (fun ch hch => hbs ch (by simp [hch]))
        fuel (by simpa using hfuel) hrest
      have hhere : isBreak c.here = true := by
        rw [here_cons h]
        exact isBreak_of_isWrittenBreak hb
      rw [quotedBreaks]
      simp only [hseparator, Bool.false_eq_true, if_false, hskip, hhere, if_true,
        lineBreak_cons h hb, hnext]
      simp [Nat.add_right_comm, forward_succ]

theorem quotedSpaces_spaces {k : Nat} (h : c.rest = List.replicate k ' ' ++ r)
    (hr : Light r) (hne : r ≠ []) :
    quotedSpaces c = .ok (List.replicate k ' ', c.forward k) := by
  have hspan : c.span isBlank = (List.replicate k ' ', c.forward k) :=
    span_spaces h (by decide) fun ch hch => (hr.not_blank hch).1
  obtain ⟨ch, r, rfl⟩ := List.exists_cons_of_ne_nil hne
  have hhere := here_cons (rest_forward_spaces h)
  simp [quotedSpaces, hspan, hhere, hr.not_blank rfl]

theorem quotedSpaces_fold (hn : 0 < n) {b : Char} {bs : Text} (hb : isWrittenBreak b = true)
    (hbs : ∀ ch ∈ bs, isWrittenBreak ch = true) (hr : Light r)
    (h : c.rest = b :: bs ++ List.replicate n ' ' ++ r) :
    quotedSpaces c =
      .ok (folded [breakText b] (bs.map breakText), c.forward (bs.length + n + 1)) := by
  have hbreak := isBreak_of_isWrittenBreak hb
  have hother : isBlank b = false ∧ isEnd b = false := by
    simp only [isWrittenBreak, Bool.or_eq_true, decide_eq_true_eq] at hb
    rcases hb with ((rfl | rfl) | rfl) | rfl <;> decide
  have hspan : c.span isBlank = ([], c) := span_none h hother.1
  have hhere := here_cons h
  have hrest : c.next.rest = bs ++ List.replicate n ' ' ++ r := rest_next_cons h
  have hlength : bs.length < c.next.rest.length + 1 := by
    simp only [hrest, List.length_append]
    omega
  have hbreaks := quotedBreaks_append [] hn hbs hr _ hlength hrest
  simp only [quotedSpaces, hspan, hhere, hother.2, hbreak, lineBreak_cons h hb]
  simp [hbreaks, bind, Except.bind, pure, Except.pure, forward_succ]

/-! ## Characters and escapes -/

theorem quotedRun_ordinary {fuel : Nat} (h : c.rest = ch :: r) (hblank : isBlankOrEnd ch = false)
    (hmark : ch ≠ '\'' ∧ ch ≠ '"' ∧ ch ≠ '\\') :
    quotedRun double (fuel + 1) acc c = quotedRun double (fuel + 1) (acc ++ [ch]) c.next := by
  have hspan : c.span (fun ch => !(isBlankOrEnd ch || ch = '\'' || ch = '"' || ch = '\\')) =
      (ch :: (c.next.span fun ch =>
          !(isBlankOrEnd ch || ch = '\'' || ch = '"' || ch = '\\')).1,
        (c.next.span fun ch => !(isBlankOrEnd ch || ch = '\'' || ch = '"' || ch = '\\')).2) := by
    simp [span, rest_next_cons h, h, hblank, hmark, forward_succ]
  rw [quotedRun, quotedRun]
  simp only [hspan, List.append_assoc, List.cons_append, List.nil_append]

theorem span_stop (hstop : isBlankOrEnd c.here = true ∨ c.here = '\'' ∨ c.here = '"' ∨
      c.here = '\\') :
    c.span (fun ch => !(isBlankOrEnd ch || ch = '\'' || ch = '"' || ch = '\\')) = ([], c) := by
  cases hrest : c.rest with
  | nil => simp [span, hrest]
  | cons ch r =>
      rw [here_cons hrest] at hstop
      rcases hstop with h | rfl | rfl | rfl <;> simp [span, *]

theorem span_stop_cons (h : c.rest = ch :: r) (hstop : ch = '\'' ∨ ch = '"' ∨ ch = '\\') :
    c.span (fun ch => !(isBlankOrEnd ch || ch = '\'' || ch = '"' || ch = '\\')) = ([], c) := by
  rw [← here_cons h] at hstop
  exact span_stop (.inr hstop)

theorem quotedRun_mark {fuel : Nat} (h : c.rest = ch :: r)
    (hmark : (double = true ∧ ch = '\'') ∨ (double = false ∧ (ch = '"' ∨ ch = '\\'))) :
    quotedRun double (fuel + 1) acc c = quotedRun double fuel (acc ++ [ch]) c.next := by
  have hspan := span_stop_cons h (by rcases hmark with ⟨-, h⟩ | ⟨-, h | h⟩ <;> simp [h])
  have hhere := here_cons h
  rw [quotedRun, hspan]
  rcases hmark with ⟨rfl, rfl⟩ | ⟨rfl, rfl | rfl⟩ <;> simp [hhere]

theorem quotedRun_char {fuel least : Nat} (h : c.rest = ch :: r)
    (hblank : isBlankOrEnd ch = false) (hquote : ch ≠ quoteOf double)
    (hescape : double = true → ch ≠ '\\') (hfuel : least + 1 < fuel) :
    ∃ left, least < left ∧
      quotedRun double fuel acc c = quotedRun double left (acc ++ [ch]) c.next := by
  obtain ⟨fuel, rfl⟩ : ∃ k, fuel = k + 1 := ⟨fuel - 1, by omega⟩
  by_cases hmark : (double = true ∧ ch = '\'') ∨ (double = false ∧ (ch = '"' ∨ ch = '\\'))
  · exact ⟨fuel, by omega, quotedRun_mark h hmark⟩
  · refine ⟨fuel + 1, by omega, quotedRun_ordinary h hblank ?_⟩
    cases double <;> simp_all [quoteOf]

theorem quotedRun_quote {fuel : Nat} (h : c.rest = '\'' :: '\'' :: r) :
    quotedRun false (fuel + 1) acc c = quotedRun false fuel (acc ++ ['\'']) (c.forward 2) := by
  have hpeek : c.peek 1 = '\'' := by simp [peek, h]
  rw [quotedRun, span_stop_cons h (by simp)]
  simp [here_cons h, hpeek]

theorem quotedRun_escape {fuel : Nat} {e : Text} (he : IsEscape ch e) (h : c.rest = e ++ r) :
    quotedRun true (fuel + 1) acc c = quotedRun true fuel (acc ++ [ch]) (c.forward e.length) := by
  rcases he with ⟨x, rfl, hx⟩ | ⟨x, ds, rfl, hnone, hdigits, hlength, hcode⟩
  · have hrest : c.next.rest = x :: r := rest_next_cons h
    rw [quotedRun, span_stop_cons h (by simp)]
    simp [here_cons h, here_cons hrest, hx, forward_succ]
  · have hrest : c.next.rest = x :: (ds ++ r) := rest_next_cons h
    have htake : c.next.next.rest.take ds.length = ds := by simp [rest_next_cons hrest]
    rw [quotedRun, span_stop_cons h (by simp)]
    simp [here_cons h, here_cons hrest, hnone, hdigits, codeEscape, htake, hlength, hcode,
      forward_succ, bind, Except.bind, pure, Except.pure]

theorem quotedRun_join (hn : 0 < n) {fuel : Nat} (hr : Light r)
    (h : c.rest = '\\' :: lineStart n ++ r) :
    quotedRun true (fuel + 1) acc c = quotedRun true fuel acc (c.forward (n + 2)) := by
  have hrest : c.next.rest = '\n' :: (List.replicate n ' ' ++ r) := rest_next_cons h
  have hspaces : c.next.next.rest = [] ++ List.replicate n ' ' ++ r := rest_next_cons hrest
  have hbreaks := quotedBreaks_append [] hn (by simp) hr
    (c.next.rest.length + 1) (by simp) hspaces
  rw [quotedRun, span_stop_cons h (by simp)]
  simp [here_cons h, here_cons hrest, escaped?, codeDigits?, isBreak,
    lineBreak_cons hrest (by decide), hbreaks, forward_succ, bind, Except.bind]

theorem quotedRun_stop {fuel : Nat} (hhere : isBlankOrEnd c.here = true ∨
      c.here = quoteOf double ∧ (double = false → c.peek 1 ≠ '\'')) :
    quotedRun double (fuel + 1) acc c = .ok (acc, c) := by
  have hstop : isBlankOrEnd c.here = true ∨ c.here = '\'' ∨ c.here = '"' ∨ c.here = '\\' := by
    rcases hhere with hblank | ⟨hquote, -⟩
    · exact .inl hblank
    · cases double <;> simp [hquote, quoteOf]
  rw [quotedRun, span_stop hstop]
  rcases hhere with hblank | ⟨hquote, hpeek⟩
  · have hne : c.here ≠ '\'' ∧ c.here ≠ '"' ∧ c.here ≠ '\\' := by
      refine ⟨?_, ?_, ?_⟩ <;> (intro heq; rw [heq] at hblank; revert hblank; decide)
    simp [hne, pure, Except.pure]
  · cases double
    · simp [hquote, quoteOf, hpeek rfl, pure, Except.pure]
    · simp [hquote, quoteOf, pure, Except.pure]

/-! ## The whole scalar -/

variable {t w tail : Text}

def RunReads (double : Bool) (tail t w : Text) : Prop :=
  ∀ (acc : Text) (c : Cursor) (fuel : Nat),
    c.rest = w ++ quoteOf double :: tail → w.length < fuel →
      ∃ run d, quotedRun double fuel acc c = .ok (run, d) ∧ d.rest.length ≤ c.rest.length ∧
        ∀ (pre : Text) (left : Nat), d.rest.length ≤ left + tail.length →
          quotedRest (quoteOf double) left (pre ++ run) d =
            .ok (pre ++ acc ++ t, c.forward (w.length + 1))

def SpacesRead (double : Bool) (tail t w : Text) : Prop :=
  ∀ (k : Nat) (pre : Text) (c : Cursor) (left : Nat),
    c.rest = List.replicate (k + 1) ' ' ++ w ++ quoteOf double :: tail → w.length + 1 < left →
      quotedRest (quoteOf double) left pre c =
        .ok (pre ++ List.replicate (k + 1) ' ' ++ t, c.forward (k + 1 + w.length + 1))

theorem decide_quoteOf : decide (quoteOf double = '"') = double := by
  cases double <;> decide

theorem quoteOf_ne_space : ' ' ≠ quoteOf double := by
  cases double <;> decide

theorem length_quoted (h : c.rest = w ++ quoteOf double :: tail) :
    c.rest.length = w.length + tail.length + 1 := by
  rw [h, List.length_append, List.length_cons]
  omega

theorem quotedRest_of_spaces {spaces : Text} {d : Cursor} {left : Nat}
    (hhere : c.here ≠ quoteOf double) (hspaces : quotedSpaces c = .ok (spaces, d))
    (hrest : d.rest = w ++ quoteOf double :: tail) (hrun : RunReads double tail t w)
    (hleft : w.length + 1 < left) (pre : Text) :
    quotedRest (quoteOf double) left pre c =
      .ok (pre ++ spaces ++ t, d.forward (w.length + 1)) := by
  obtain ⟨left, rfl⟩ : ∃ m, left = m + 1 := ⟨left - 1, by omega⟩
  have hlength := length_quoted hrest
  obtain ⟨run, e, hrun, hle, hread⟩ := hrun [] d (d.rest.length + 1) hrest (by omega)
  have hread := hread (pre ++ spaces) left (by omega)
  rw [quotedRest, if_neg hhere, hspaces]
  simp only [bind, Except.bind, decide_quoteOf, hrun]
  rw [hread, List.append_nil]

theorem spacesRead_of_light (hw : Light w) (hrun : RunReads double tail t w) :
    SpacesRead double tail t w := by
  intro k pre c left h hleft
  rw [List.append_assoc] at h
  have hhere : c.here = ' ' := here_cons (by rw [h, List.replicate_succ]; rfl)
  have hspaces := quotedSpaces_spaces h (light_append_quote hw double tail) (by simp)
  have hrest : (c.forward (k + 1)).rest = w ++ quoteOf double :: tail := rest_forward_spaces h
  rw [quotedRest_of_spaces (by rw [hhere]; exact quoteOf_ne_space) hspaces hrest hrun hleft,
    ← forward_add, Nat.add_assoc (k + 1)]

theorem light_cons {w : Text} (h : isBlankOrEnd ch = false) : Light (ch :: w) := by
  rintro d ⟨⟩
  exact h

theorem runReads_nil (double : Bool) (htail : tail.head? ≠ some '\'') :
    RunReads double tail [] [] := by
  intro acc c fuel h hfuel
  obtain ⟨fuel, rfl⟩ : ∃ m, fuel = m + 1 := ⟨fuel - 1, by simp at hfuel; omega⟩
  have hhere : c.here = quoteOf double := here_cons h
  have hpeek : c.peek 1 ≠ '\'' := by
    rw [peek_succ_cons h]
    cases tail with
    | nil => decide
    | cons ch tail => simpa using htail
  refine ⟨acc, c, quotedRun_stop (.inr ⟨hhere, fun _ => hpeek⟩), Nat.le_refl _, ?_⟩
  intro pre left hleft
  have hlength := length_quoted h
  obtain ⟨left, rfl⟩ : ∃ m, left = m + 1 := ⟨left - 1, by omega⟩
  simp [quotedRest, hhere, pure, Except.pure, forward_succ]

theorem RunReads.step {s u : Text} {x : Text} (hrun : RunReads double tail u w)
    (hstep : ∀ (acc : Text) (c : Cursor) (fuel : Nat), c.rest = s ++ (w ++ quoteOf double :: tail) →
      s.length + w.length < fuel →
        ∃ left, w.length < left ∧
          quotedRun double fuel acc c = quotedRun double left (acc ++ x) (c.forward s.length)) :
    RunReads double tail (x ++ u) (s ++ w) := by
  intro acc c fuel h hfuel
  rw [List.length_append] at hfuel
  rw [List.append_assoc] at h
  obtain ⟨left, hleft, heq⟩ := hstep acc c fuel h hfuel
  have hrest := rest_forward_append h
  obtain ⟨run, d, hread, hle, hend⟩ := hrun (acc ++ x) (c.forward s.length) left hrest hleft
  refine ⟨run, d, heq.trans hread, ?_, ?_⟩
  · rw [hrest] at hle
    rw [h, List.length_append]
    omega
  · intro pre left hleft
    rw [hend pre left hleft, ← forward_add, List.length_append]
    simp [Nat.add_assoc]

theorem runReads_of_rest {pre' : Text} (hblank : isBlankOrEnd ch = true)
    (hrest : ∀ (pre : Text) (c : Cursor) (left : Nat),
      c.rest = ch :: w ++ quoteOf double :: tail → (ch :: w).length < left →
        quotedRest (quoteOf double) left pre c =
          .ok (pre ++ pre', c.forward ((ch :: w).length + 1))) :
    RunReads double tail pre' (ch :: w) := by
  intro acc c fuel h hfuel
  obtain ⟨fuel, rfl⟩ : ∃ m, fuel = m + 1 := ⟨fuel - 1, by omega⟩
  have hhere : isBlankOrEnd c.here = true := by
    rw [here_cons h]
    exact hblank
  have hlength := length_quoted h
  exact ⟨acc, c, quotedRun_stop (.inl hhere), Nat.le_refl _, fun pre left hleft =>
    hrest (pre ++ acc) c left h (by omega)⟩

theorem SpacesRead.cons (h : SpacesRead double tail t w) :
    SpacesRead double tail (' ' :: t) (' ' :: w) := by
  intro k pre c left hrest hleft
  have hmore : List.replicate (k + 1 + 1) ' ' = List.replicate (k + 1) ' ' ++ [' '] :=
    List.replicate_succ'
  have hspaces := h (k + 1) pre c left (by rw [hrest, hmore]; simp) (by simp at hleft; omega)
  rw [hspaces, hmore]
  simp only [List.append_assoc, List.cons_append, List.nil_append, List.length_cons]
  congr 3
  omega

theorem SpacesRead.runReads (h : SpacesRead double tail t w) :
    RunReads double tail (' ' :: t) (' ' :: w) := by
  refine runReads_of_rest (by decide) fun pre c left hrest hleft => ?_
  have hspaces := h 0 pre c left (by simpa using hrest) (by simpa using hleft)
  simpa [Nat.add_comm 1] using hspaces

theorem runReads_fold (hn : 0 < n) {b : Char} {bs : Text} (hb : isWrittenBreak b = true)
    (hbs : ∀ ch ∈ bs, isWrittenBreak ch = true) (hw : Light w)
    (hrun : RunReads false tail t w) :
    RunReads false tail (folded [breakText b] (bs.map breakText) ++ t)
      (b :: (bs ++ List.replicate n ' ' ++ w)) := by
  refine runReads_of_rest (isBlankOrEnd_of_isBreak (isBreak_of_isWrittenBreak hb))
    fun pre c left h hleft => ?_
  simp only [List.length_append, List.length_cons, List.length_replicate] at hleft
  have hquote : c.here ≠ quoteOf false := by
    rw [here_cons h]
    rintro rfl
    revert hb
    decide
  have hrow : c.rest = b :: bs ++ List.replicate n ' ' ++ (w ++ quoteOf false :: tail) := by
    rw [h]
    simp
  have hspaces := quotedSpaces_fold hn hb hbs (light_append_quote hw false tail) hrow
  have hrest : (c.forward (bs.length + n + 1)).rest = w ++ quoteOf false :: tail := by
    simpa [Nat.add_right_comm] using rest_forward_append hrow
  rw [quotedRest_of_spaces hquote hspaces hrest hrun (by omega), ← forward_add]
  simp only [List.append_assoc, List.length_append, List.length_cons, List.length_replicate]
  congr 3
  omega

theorem reads_of_quoted (hn : 0 < n) (htail : tail.head? ≠ some '\'')
    (h : Quoted double n t w) :
    RunReads double tail t w ∧
      ((∀ ch, w.head? = some ch → isBreak ch = false) → SpacesRead double tail t w) := by
  induction h with
  | nil =>
      have hrun := runReads_nil double htail
      exact ⟨hrun, fun _ => spacesRead_of_light (by simp [Light]) hrun⟩
  | @char ch t w hblank hquote hescape _ ih =>
      have hrun : RunReads double tail ([ch] ++ t) ([ch] ++ w) := by
        refine ih.1.step fun acc c fuel h hfuel => ?_
        exact quotedRun_char h hblank hquote hescape (by simpa [Nat.add_comm] using hfuel)
      exact ⟨hrun, fun _ => spacesRead_of_light (light_cons hblank) hrun⟩
  | @space t w hw _ ih =>
      exact ⟨(ih.2 hw).runReads, fun _ => (ih.2 hw).cons⟩
  | @quote t w hsingle _ ih =>
      subst hsingle
      have hrun : RunReads false tail (['\''] ++ t) (['\'', '\''] ++ w) := by
        refine ih.1.step fun acc c fuel h hfuel => ?_
        obtain ⟨fuel, rfl⟩ : ∃ m, fuel = m + 1 := ⟨fuel - 1, by omega⟩
        exact ⟨fuel, by simp at hfuel; omega, quotedRun_quote h⟩
      exact ⟨hrun, fun _ => spacesRead_of_light (light_cons (by decide)) hrun⟩
  | @escape ch e t w hdouble he _ ih =>
      subst hdouble
      have hlight : Light (e ++ w) ∧ 0 < e.length := by
        rcases he with ⟨x, rfl, -⟩ | ⟨x, ds, rfl, -⟩ <;> exact ⟨light_cons (by decide), by simp⟩
      have hrun : RunReads true tail ([ch] ++ t) (e ++ w) := by
        refine ih.1.step fun acc c fuel h hfuel => ?_
        obtain ⟨fuel, rfl⟩ : ∃ m, fuel = m + 1 := ⟨fuel - 1, by omega⟩
        exact ⟨fuel, by omega, quotedRun_escape he h⟩
      exact ⟨hrun, fun _ => spacesRead_of_light hlight.1 hrun⟩
  | @fold b bs t w hsingle hb hbs hw _ ih =>
      subst hsingle
      refine ⟨runReads_fold hn hb hbs hw ih.1, fun hhead => ?_⟩
      -- Among spaces there is no break.
      have hbreak := hhead b rfl
      rw [isBreak_of_isWrittenBreak hb] at hbreak
      cases hbreak
  | @join t w hdouble hw _ ih =>
      subst hdouble
      have hrun : RunReads true tail ([] ++ t) ('\\' :: lineStart n ++ w) := by
        refine ih.1.step fun acc c fuel h hfuel => ?_
        obtain ⟨fuel, rfl⟩ : ∃ m, fuel = m + 1 := ⟨fuel - 1, by omega⟩
        refine ⟨fuel, by simp at hfuel; omega, ?_⟩
        rw [quotedRun_join hn (light_append_quote hw true tail) h]
        simp
      exact ⟨hrun, fun _ => spacesRead_of_light (light_cons (by decide)) hrun⟩

/-- A quoted scalar reads as what its grammar says. -/
theorem quotedScalar_eq (hn : 0 < n) (htail : tail.head? ≠ some '\'')
    (hquoted : Quoted double n t w)
    (h : c.rest = quoteOf double :: w ++ quoteOf double :: tail) :
    quotedScalar c = .ok (t, c.forward (w.length + 2)) := by
  have hrest : c.next.rest = w ++ quoteOf double :: tail := rest_next_cons h
  have hhere : c.here = quoteOf double := here_cons h
  have hlength := length_quoted hrest
  obtain ⟨run, d, hrun, hle, hend⟩ :=
    (reads_of_quoted hn htail hquoted).1 [] c.next (c.rest.length + 1) hrest
      (by rw [h, List.length_append, List.length_cons]; omega)
  have hend := hend [] (d.rest.length + 1) (by omega)
  rw [quotedScalar]
  simp only [hhere, bind, Except.bind, decide_quoteOf, hrun]
  simpa [forward_succ] using hend

end Quoted

end SourceScan.Yaml
