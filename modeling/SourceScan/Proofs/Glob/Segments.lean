import SourceScan.Proofs.Glob.Reading

/-!
# Paths taken segment by segment

The pieces of a pattern know of no segments, they take characters.  For a pattern without brackets
and escapes the row takes a path exactly if the segments of the pattern take the first segments of
the path, one after the other.
-/

namespace SourceScan.Glob

/-- A segment fits another text if its stars stand for runs of characters, its question marks for
single characters, and all other characters for themselves. -/
inductive Fits : Text → Text → Prop where
  | done : Fits [] []
  | star {s p : Text} (run : Text) : Fits s p → Fits ('*' :: s) (run ++ p)
  | one {s p : Text} (c : Char) : Fits s p → Fits ('?' :: s) (c :: p)
  | same {s p : Text} {c : Char} : c ≠ '*' → c ≠ '?' → Fits s p → Fits (c :: s) (c :: p)

/-- The segments of a pattern take those of a path: `**` any number of them, and every other segment
one that it fits.  At the end `**` takes at least one, unless it may take none. -/
inductive Takes (orNone : Prop) : List Text → List Text → Prop where
  | done : Takes orNone [] []
  | one {s p : Text} {ss ps : List Text} : s ≠ anyDepth → Fits s p → Takes orNone ss ps →
      Takes orNone (s :: ss) (p :: ps)
  | through {ss ps : List Text} (skipped : List Text) : ss ≠ [] → Takes orNone ss ps →
      Takes orNone (anyDepth :: ss) (skipped ++ ps)
  | contents {ps : List Text} : ps ≠ [] ∨ orNone → Takes orNone [anyDepth] ps

def isOrdinary (c : Char) : Bool :=
  c ≠ '/' && c ≠ '[' && c ≠ ']' && c ≠ '\\' && !Text.isBlank c

structure IsSegment (s : Text) : Prop where
  filled : s ≠ []
  ordinary : ∀ c ∈ s, isOrdinary c = true
  stars : s = anyDepth ∨ Text.occursIn anyDepth s = false

instance : DecidablePred IsSegment := fun s => decidable_of_iff
  (s ≠ [] ∧ s.all isOrdinary = true ∧ (s = anyDepth ∨ Text.occursIn anyDepth s = false))
  ⟨fun h => ⟨h.1, List.all_eq_true.1 h.2.1, h.2.2⟩,
    fun h => ⟨h.filled, List.all_eq_true.2 h.ordinary, h.stars⟩⟩

def IsEntry (p : Text) : Prop := p ≠ [] ∧ '/' ∉ p ∧ '\n' ∉ p

def slashed (segments : List Text) : Text := segments.flatMap ('/' :: ·)

variable {orNone : Prop} {s p a b : Text} {ss ps : List Text}

theorem slash_cons_eq_slashed (s : Text) : '/' :: s = slashed (Text.splitOn '/' s) := by
  rw [Text.splitOn_eq]
  induction s with
  | nil => rfl
  | cons c s ih =>
      rw [List.splitOn_cons_eq_if_modifyHead]
      by_cases hc : c = '/'
      · subst hc
        rw [if_pos (beq_self_eq_true _), ih]
        rfl
      · rw [if_neg (by simpa using hc)]
        cases hsplit : s.splitOn '/' with
        | nil => exact absurd hsplit (List.splitOn_ne_nil _ _)
        | cons first rest =>
            rw [hsplit] at ih
            simpa [slashed] using ih

theorem newline_not_mem_slashed (hps : ∀ p ∈ ps, IsEntry p) : '\n' ∉ slashed ps := by
  intro hmem
  obtain ⟨p, hp, hchar⟩ := List.mem_flatMap.1 hmem
  rcases List.mem_cons.1 hchar with heq | hchar
  · cases heq
  · exact (hps p hp).2.2 hchar

/-! ## One segment -/

theorem fits_self {s : Text} (hstar : '*' ∉ s) (hone : '?' ∉ s) : Fits s s := by
  induction s with
  | nil => exact .done
  | cons c s ih =>
      rw [List.mem_cons, not_or] at hstar hone
      exact .same (Ne.symm hstar.1) (Ne.symm hone.1) (ih hstar.2 hone.2)

theorem fits_ne_nil (hs : IsSegment s) (hdepth : s ≠ anyDepth) (hstar : s ≠ ['*'])
    (h : Fits s p) : p ≠ [] := by
  cases h with
  | done => exact absurd rfl hs.filled
  | one c h => exact List.cons_ne_nil _ _
  | same hc hc' h => exact List.cons_ne_nil _ _
  | star run h =>
      cases h with
      | done => exact absurd rfl hstar
      | one c h => simp
      | same hc hc' h => simp
      | star run h =>
          -- A second star after the first makes the segment hold `**`.
          have hfree := hs.stars.resolve_left hdepth
          rw [Bool.eq_false_iff, ne_eq, Text.occursIn] at hfree
          simp [anyDepth] at hfree

theorem ofLine_text (line : Text) : Pattern.ofLine line =
    let line := if ("\\ " : Text).isSuffixOf line then Text.stripStart line else Text.strip line
    if line = [] ∨ line = ['/'] ∨ line.head? = some '#' then .ok .never
    else
      let segments := collapse (Text.splitOn '/' line)
      if segments = [anyDepth, []] then .ok (.row [.nested])
      else (rowPieces (rooted segments)).map .row := rfl

theorem segmentPieces_star (s : Text) :
    segmentPieces ('*' :: s) = (segmentPieces s).map (.run :: ·) := by
  rw [segmentPieces.eq_def]
  simp

theorem segmentPieces_one (s : Text) :
    segmentPieces ('?' :: s) = (segmentPieces s).map (.unit :: ·) := by
  rw [segmentPieces.eq_def]
  simp

theorem segmentPieces_same (hescape : c ≠ '\\') (hstar : c ≠ '*') (hone : c ≠ '?')
    (hopen : c ≠ '[') (s : Text) :
    segmentPieces (c :: s) = (segmentPieces s).map (.char c :: ·) := by
  rw [segmentPieces.eq_def]
  simp [hescape, hstar, hone, hopen, Piece.literal]

theorem exists_segmentPieces (hs : ∀ c ∈ s, isOrdinary c = true) :
    ∃ pieces, segmentPieces s = .ok pieces ∧ ∀ b, RowReads pieces b ↔ Fits s b ∧ '/' ∉ b := by
  induction s with
  | nil =>
      refine ⟨[], by rw [segmentPieces], fun b => ⟨?_, ?_⟩⟩
      · rintro rfl
        exact ⟨.done, by simp⟩
      · rintro ⟨h, -⟩
        cases h
        rfl
  | cons c s ih =>
      obtain ⟨hc, hs⟩ := List.forall_mem_cons.1 hs
      obtain ⟨pieces, hpieces, hreads⟩ := ih hs
      by_cases hstar : c = '*'
      · subst hstar
        refine ⟨.run :: pieces, by rw [segmentPieces_star, hpieces]; rfl, fun b => ⟨?_, ?_⟩⟩
        · rintro ⟨x, y, hx, hy, rfl⟩
          obtain ⟨hfits, hslash⟩ := (hreads y).1 hy
          exact ⟨.star x hfits, by simpa using ⟨hx, hslash⟩⟩
        · rintro ⟨h, hslash⟩
          cases h with
          | star run h =>
              rw [List.mem_append, not_or] at hslash
              exact ⟨run, _, hslash.1, (hreads _).2 ⟨h, hslash.2⟩, rfl⟩
          | same hc => exact absurd rfl hc
      by_cases hone : c = '?'
      · subst hone
        refine ⟨.unit :: pieces, by rw [segmentPieces_one, hpieces]; rfl, fun b => ⟨?_, ?_⟩⟩
        · rintro ⟨_, y, ⟨d, hd, rfl⟩, hy, rfl⟩
          obtain ⟨hfits, hslash⟩ := (hreads y).1 hy
          exact ⟨.one d hfits, by simpa using ⟨hd.symm, hslash⟩⟩
        · rintro ⟨h, hslash⟩
          cases h with
          | one d h =>
              rw [List.mem_cons, not_or] at hslash
              exact ⟨[d], _, ⟨d, Ne.symm hslash.1, rfl⟩, (hreads _).2 ⟨h, hslash.2⟩, rfl⟩
          | same _ hc => exact absurd rfl hc
      -- Any other character stands for itself.
      simp only [isOrdinary, Bool.and_eq_true, decide_eq_true_eq] at hc
      obtain ⟨⟨⟨⟨hslash, hopen⟩, -⟩, hescape⟩, -⟩ := hc
      refine ⟨.char c :: pieces, ?_, fun b => ⟨?_, ?_⟩⟩
      · rw [segmentPieces_same hescape hstar hone hopen, hpieces]
        rfl
      · rintro ⟨_, y, rfl, hy, rfl⟩
        obtain ⟨hfits, hrest⟩ := (hreads y).1 hy
        exact ⟨.same hstar hone hfits, by simpa using ⟨Ne.symm hslash, hrest⟩⟩
      · rintro ⟨h, hrest⟩
        cases h with
        | star => exact absurd rfl hstar
        | one => exact absurd rfl hone
        | same _ _ h =>
            rw [List.mem_cons, not_or] at hrest
            exact ⟨[c], _, rfl, (hreads _).2 ⟨h, hrest.2⟩, rfl⟩

def ownPieces (s : Text) : Except PatternError (List Piece) :=
  if s = ['*'] then .ok [.segment] else segmentPieces s

theorem fits_star (p : Text) : Fits ['*'] p := by
  have h := Fits.star p .done
  rwa [List.append_nil] at h

theorem exists_ownPieces (hs : IsSegment s) (hdepth : s ≠ anyDepth) :
    ∃ own, ownPieces s = .ok own ∧ ∀ b, RowReads own b ↔ Fits s b ∧ b ≠ [] ∧ '/' ∉ b := by
  by_cases hstar : s = ['*']
  · subst hstar
    refine ⟨[.segment], rfl, fun b => ?_⟩
    rw [rowReads_singleton, Piece.Reads, and_iff_right (fits_star b)]
  · obtain ⟨own, hown, hreads⟩ := exists_segmentPieces hs.ordinary
    refine ⟨own, by rw [ownPieces, if_neg hstar, hown], fun b => (hreads b).trans ?_⟩
    constructor
    · rintro ⟨h, hslash⟩
      exact ⟨h, fits_ne_nil hs hdepth hstar h, hslash⟩
    · rintro ⟨h, -, hslash⟩
      exact ⟨h, hslash⟩

/-! ## What follows a segment -/

def Bounded (pieces : List Piece) : Prop :=
  ∀ a, RowReads pieces a → a = [] ∨ a.head? = some '/'

theorem head?_slashed_append (ps : List Text) {e : Text} (he : e = [] ∨ e = ['/']) :
    slashed ps ++ e = [] ∨ (slashed ps ++ e).head? = some '/' := by
  cases ps with
  | nil => rcases he with rfl | rfl <;> simp [slashed]
  | cons p ps => exact .inr rfl

theorem append_cancel_of_slash {p q x y : Text} (hp : '/' ∉ p) (hq : '/' ∉ q)
    (hx : x = [] ∨ x.head? = some '/') (hy : y = [] ∨ y.head? = some '/')
    (h : p ++ x = q ++ y) : p = q ∧ x = y := by
  induction p generalizing q with
  | nil =>
      cases q with
      | nil => exact ⟨rfl, h⟩
      | cons d q =>
          rcases hx with rfl | hx
          · cases h
          · rw [List.nil_append] at h
            rw [h] at hx
            cases hx
            simp at hq
  | cons c p ih =>
      rw [List.mem_cons, not_or] at hp
      cases q with
      | nil =>
          rcases hy with rfl | hy
          · cases h
          · rw [List.nil_append] at h
            rw [← h] at hy
            exact absurd (Option.some.inj hy).symm hp.1
      | cons d q =>
          rw [List.mem_cons, not_or] at hq
          obtain ⟨rfl, hrest⟩ := List.cons.inj h
          obtain ⟨rfl, hxy⟩ := ih hp.2 hq.2 hrest
          exact ⟨rfl, hxy⟩

theorem exists_cut (x : Text) :
    ∃ q z, '/' ∉ q ∧ (z = [] ∨ z.head? = some '/') ∧ x = q ++ z := by
  refine ⟨x.takeWhile (· ≠ '/'), x.dropWhile (· ≠ '/'), fun hmem => ?_, ?_,
    List.takeWhile_append_dropWhile.symm⟩
  · simpa using List.mem_takeWhile_imp hmem
  · cases hdrop : x.dropWhile (· ≠ '/') with
    | nil => exact .inl rfl
    | cons d z =>
        have hd := List.head_dropWhile_not (fun c => decide (c ≠ '/')) (l := x)
          (by rw [hdrop]; exact List.cons_ne_nil _ _)
        simp only [hdrop, List.head_cons] at hd
        simpa using hd

theorem exists_of_slashed_append {x y e : Text} (hps : ∀ p ∈ ps, IsEntry p)
    (he : e = [] ∨ e = ['/']) (hx : x = [] ∨ x.head? = some '/') (hy : y.head? = some '/')
    (h : slashed ps ++ e = x ++ y) :
    ∃ front back, ps = front ++ back ∧ x = slashed front ∧ y = slashed back ++ e := by
  induction ps generalizing x with
  | nil =>
      rcases hx with rfl | hx
      · exact ⟨[], [], rfl, rfl, h.symm⟩
      · cases x with
        | nil => cases hx
        | cons c x =>
            rcases he with rfl | rfl
            · cases h
            · obtain ⟨-, hnil⟩ := List.cons.inj h
              rw [(List.append_eq_nil_iff.1 hnil.symm).2] at hy
              cases hy
  | cons p ps ih =>
      obtain ⟨hp, hps'⟩ := List.forall_mem_cons.1 hps
      cases x with
      | nil => exact ⟨[], p :: ps, rfl, rfl, h.symm⟩
      | cons c x =>
          rcases hx with hx | hx
          · cases hx
          obtain rfl : c = '/' := Option.some.inj hx
          have hrest : p ++ (slashed ps ++ e) = x ++ y := by
            rw [← List.append_assoc]
            exact (List.cons.inj h).2
          obtain ⟨q, z, hq, hz, rfl⟩ := exists_cut x
          rw [List.append_assoc] at hrest
          have hzy : z ++ y = [] ∨ (z ++ y).head? = some '/' := by
            rcases hz with rfl | hz
            · exact .inr hy
            · cases z with
              | nil => cases hz
              | cons d z => exact .inr hz
          obtain ⟨rfl, htail⟩ := append_cancel_of_slash hp.2.1 hq
            (head?_slashed_append ps he) hzy hrest
          obtain ⟨front, back, rfl, rfl, rfl⟩ := ih hps' hz htail
          exact ⟨p :: front, back, rfl, rfl, rfl⟩

/-! ## Rows of segments -/

section Rows

variable {own more : List Piece} {e : Text}

theorem reads_segment_iff (hown : ∀ b, RowReads own b ↔ Fits s b ∧ b ≠ [] ∧ '/' ∉ b)
    (hmore : Bounded more) (hps : ∀ p ∈ ps, IsEntry p) (he : e = [] ∨ e = ['/']) :
    RowReads (.char '/' :: own ++ more) (slashed ps ++ e) ↔
      ∃ p rest, ps = p :: rest ∧ Fits s p ∧ RowReads more (slashed rest ++ e) := by
  rw [List.cons_append]
  constructor
  · rintro ⟨_, _, rfl, hrow, heq⟩
    obtain ⟨b, c, hb, hc, rfl⟩ := rowReads_append.1 hrow
    obtain ⟨hfits, hne, hslash⟩ := (hown b).1 hb
    cases ps with
    | nil =>
        rcases he with rfl | rfl
        · cases heq
        · simp only [slashed, List.flatMap_nil, List.nil_append, List.singleton_append,
            List.cons.injEq, List.nil_eq_append_iff, true_and] at heq
          exact absurd heq.1 hne
    | cons p ps =>
        obtain ⟨hp, hps⟩ := List.forall_mem_cons.1 hps
        have hrest : p ++ (slashed ps ++ e) = b ++ c := by
          rw [← List.append_assoc]
          exact (List.cons.inj heq).2
        obtain ⟨rfl, rfl⟩ := append_cancel_of_slash hp.2.1 hslash (head?_slashed_append ps he)
          (hmore c hc) hrest
        exact ⟨p, ps, rfl, hfits, hc⟩
  · rintro ⟨p, rest, rfl, hfits, hrest⟩
    obtain ⟨hne, hslash, -⟩ := hps p List.mem_cons_self
    refine ⟨['/'], p ++ (slashed rest ++ e), rfl, ?_, by simp [slashed]⟩
    exact rowReads_append.2 ⟨p, _, (hown p).2 ⟨hfits, hne, hslash⟩, hrest, rfl⟩

theorem reads_inner_iff (hmore : ∀ c, RowReads more c → c.head? = some '/')
    (hps : ∀ p ∈ ps, IsEntry p) (he : e = [] ∨ e = ['/']) :
    RowReads (.inner :: more) (slashed ps ++ e) ↔
      ∃ skipped rest, ps = skipped ++ rest ∧ RowReads more (slashed rest ++ e) := by
  constructor
  · rintro ⟨b, c, hb, hc, heq⟩
    have hhead : b = [] ∨ b.head? = some '/' := by
      rcases hb with rfl | ⟨_, -, -, rfl⟩
      · exact .inl rfl
      · exact .inr rfl
    obtain ⟨skipped, rest, rfl, rfl, rfl⟩ :=
      exists_of_slashed_append hps he hhead (hmore c hc) heq
    exact ⟨skipped, rest, rfl, hc⟩
  · rintro ⟨skipped, rest, rfl, hrest⟩
    rw [List.forall_mem_append] at hps
    refine ⟨slashed skipped, slashed rest ++ e, ?_, hrest, by simp [slashed]⟩
    cases skipped with
    | nil => exact .inl rfl
    | cons p skipped =>
        obtain ⟨hp, hskipped⟩ := List.forall_mem_cons.1 hps.1
        refine .inr ⟨p ++ slashed skipped, by simp [hp.1], ?_, rfl⟩
        rw [List.mem_append, not_or]
        exact ⟨hp.2.2, newline_not_mem_slashed hskipped⟩

theorem newline_not_mem_append (hps : ∀ p ∈ ps, IsEntry p) (he : e = [] ∨ e = ['/']) :
    '\n' ∉ slashed ps ++ e := by
  rw [List.mem_append, not_or]
  refine ⟨newline_not_mem_slashed hps, ?_⟩
  rcases he with rfl | rfl <;> simp

theorem reads_contents_iff (hps : ∀ p ∈ ps, IsEntry p) (he : e = [] ∨ e = ['/']) :
    RowReads [.contents] (slashed ps ++ e) ↔ ps ≠ [] ∨ e ≠ [] := by
  have hline := newline_not_mem_append hps he
  rw [rowReads_singleton, Piece.Reads]
  constructor
  · rintro ⟨b, -, heq⟩
    by_contra hnone
    simp only [ne_eq, not_or, not_not] at hnone
    rw [hnone.1, hnone.2] at heq
    cases heq
  · intro hsome
    rcases head?_slashed_append ps he with hnil | hhead
    · cases ps with
      | nil => exact absurd hnil (hsome.resolve_left (by simp))
      | cons p ps => cases hnil
    · cases htext : slashed ps ++ e with
      | nil => simp [htext] at hhead
      | cons c b =>
          rw [htext] at hhead hline
          cases hhead
          exact ⟨b, fun hmem => hline (List.mem_cons_of_mem _ hmem), rfl⟩

theorem reads_below (hps : ∀ p ∈ ps, IsEntry p) (he : e = [] ∨ e = ['/']) :
    RowReads [.below] (slashed ps ++ e) := by
  have hline := newline_not_mem_append hps he
  rw [rowReads_singleton, Piece.Reads]
  rcases head?_slashed_append ps he with hnil | hhead
  · exact .inl hnil
  · cases htext : slashed ps ++ e with
    | nil => exact .inl rfl
    | cons c b =>
        rw [htext] at hhead hline
        cases hhead
        exact .inr ⟨b, fun hmem => hline (List.mem_cons_of_mem _ hmem), rfl⟩

end Rows

/-! ## The segments of a pattern -/

theorem takes_segment_iff (hs : s ≠ anyDepth) : Takes orNone (s :: ss) ps ↔
    ∃ p rest, ps = p :: rest ∧ Fits s p ∧ Takes orNone ss rest := by
  constructor
  · intro h
    cases h with
    | one _ hfits h => exact ⟨_, _, rfl, hfits, h⟩
    | through => exact absurd rfl hs
    | contents => exact absurd rfl hs
  · rintro ⟨p, rest, rfl, hfits, h⟩
    exact .one hs hfits h

theorem takes_anyDepth_iff (hss : ss ≠ []) : Takes orNone (anyDepth :: ss) ps ↔
    ∃ skipped rest, ps = skipped ++ rest ∧ Takes orNone ss rest := by
  constructor
  · intro h
    cases h with
    | one hs => exact absurd rfl hs
    | through skipped _ h => exact ⟨skipped, _, rfl, h⟩
    | contents => exact absurd rfl hss
  · rintro ⟨skipped, rest, rfl, h⟩
    exact .through skipped hss h

theorem takes_contents_iff : Takes orNone [anyDepth] ps ↔ ps ≠ [] ∨ orNone := by
  constructor
  · intro h
    cases h with
    | one hs => exact absurd rfl hs
    | through _ hss => exact absurd rfl hss
    | contents h => exact h
  · exact .contents

theorem Takes.mono {other : Prop} (h : Takes orNone ss ps) (himp : orNone → other) :
    Takes other ss ps := by
  induction h with
  | done => exact .done
  | one hs hfits _ ih => exact .one hs hfits ih
  | through skipped hss _ ih => exact .through skipped hss ih
  | contents h => exact .contents (h.imp_right himp)

theorem laterPieces_of_ne (slash : Bool) (hs : s ≠ anyDepth) : laterPieces slash (s :: ss) = do
    let own ← ownPieces s
    let later ← laterPieces true ss
    return (if slash then [.char '/'] else []) ++ own ++
      (if ss.isEmpty then [.below] else []) ++ later := by
  rw [laterPieces, if_neg hs, ownPieces, Glyph.ofChar_char]
  by_cases hstar : s = ['*']
  · simp only [if_pos hstar]
  · simp only [if_neg hstar]

theorem laterPieces_cons (slash : Bool) {own later : List Piece} (hs : s ≠ anyDepth)
    (hown : ownPieces s = .ok own) (hlater : laterPieces true ss = .ok later) :
    laterPieces slash (s :: ss) = .ok ((if slash then [.char '/'] else []) ++ own ++
      (if ss.isEmpty then [.below] else []) ++ later) := by
  rw [laterPieces_of_ne slash hs, hown, hlater]
  rfl

/-- After a slash the row takes what the segments take, and then anything below that. -/
structure Means (pieces : List Piece) (ss : List Text) : Prop where
  head : ∀ a, RowReads pieces a → a.head? = some '/'
  reads : ∀ (ps : List Text) (e : Text), (∀ p ∈ ps, IsEntry p) → (e = [] ∨ e = ['/']) →
    (RowReads pieces (slashed ps ++ e) ↔
      ∃ front back, ps = front ++ back ∧ Takes (e ≠ [] ∧ back = []) ss front)

namespace Means

variable {own pieces : List Piece}

theorem contents : Means [.contents] [anyDepth] := by
  refine ⟨fun a h => ?_, fun ps e hps he => ?_⟩
  · obtain ⟨b, -, rfl⟩ := rowReads_singleton.1 h
    rfl
  · simp only [reads_contents_iff hps he, takes_contents_iff]
    constructor
    · intro h
      exact ⟨ps, [], by simp, h.imp_right fun he => ⟨he, rfl⟩⟩
    · rintro ⟨front, back, rfl, hfront | ⟨he, -⟩⟩
      · exact .inl (by simp [hfront])
      · exact .inr he

theorem inner (h : Means pieces ss) (hss : ss ≠ []) :
    Means (.inner :: pieces) (anyDepth :: ss) := by
  refine ⟨fun a hrow => ?_, fun ps e hps he => ?_⟩
  · obtain ⟨_, c, hinner, hc, rfl⟩ := hrow
    rcases hinner with rfl | ⟨b, -, -, rfl⟩
    · exact h.head c hc
    · rfl
  · simp only [reads_inner_iff h.head hps he, takes_anyDepth_iff hss]
    constructor
    · rintro ⟨skipped, left, rfl, hrow⟩
      have hleft := fun p hp => hps p (List.mem_append_right skipped hp)
      obtain ⟨front, back, rfl, htakes⟩ := (h.reads left e hleft he).1 hrow
      exact ⟨skipped ++ front, back, by simp, skipped, front, rfl, htakes⟩
    · rintro ⟨_, back, rfl, skipped, front, rfl, htakes⟩
      rw [List.append_assoc] at hps ⊢
      have hleft := fun p hp => hps p (List.mem_append_right skipped hp)
      exact ⟨skipped, front ++ back, rfl, (h.reads _ e hleft he).2 ⟨front, back, rfl, htakes⟩⟩

section Segment

variable (hs : s ≠ anyDepth) (hown : ∀ b, RowReads own b ↔ Fits s b ∧ b ≠ [] ∧ '/' ∉ b)
include hs hown

theorem last : Means (.char '/' :: own ++ [.below]) [s] := by
  have hbelow : Bounded [.below] := by
    intro a h
    obtain rfl | ⟨b, -, rfl⟩ := rowReads_singleton.1 h
    · exact .inl rfl
    · exact .inr rfl
  refine ⟨?_, fun ps e hps he => ?_⟩
  · rintro _ ⟨_, c, rfl, -, rfl⟩
    rfl
  · rw [reads_segment_iff hown hbelow hps he]
    simp only [takes_segment_iff hs]
    constructor
    · rintro ⟨p, left, rfl, hfits, -⟩
      exact ⟨[p], left, rfl, p, [], rfl, hfits, .done⟩
    · rintro ⟨_, back, rfl, p, left, rfl, hfits, -⟩
      have hback := fun q hq => hps q (List.mem_cons_of_mem p hq)
      exact ⟨p, left ++ back, rfl, hfits, reads_below hback he⟩

theorem segment (h : Means pieces ss) : Means (.char '/' :: own ++ pieces) (s :: ss) := by
  refine ⟨?_, fun ps e hps he => ?_⟩
  · rintro _ ⟨_, c, rfl, -, rfl⟩
    rfl
  · rw [reads_segment_iff hown (fun a hrow => .inr (h.head a hrow)) hps he]
    simp only [takes_segment_iff hs]
    constructor
    · rintro ⟨p, left, rfl, hfits, hrow⟩
      have hleft := fun q hq => hps q (List.mem_cons_of_mem p hq)
      obtain ⟨front, back, rfl, htakes⟩ := (h.reads left e hleft he).1 hrow
      exact ⟨p :: front, back, rfl, p, front, rfl, hfits, htakes⟩
    · rintro ⟨_, back, rfl, p, front, rfl, hfits, htakes⟩
      have hleft := fun q hq => hps q (List.mem_cons_of_mem p hq)
      exact ⟨p, front ++ back, rfl, hfits, (h.reads _ e hleft he).2 ⟨front, back, rfl, htakes⟩⟩

end Segment

end Means

theorem exists_laterPieces (hss : ss ≠ []) (hseg : ∀ s ∈ ss, IsSegment s) :
    ∃ pieces, laterPieces true ss = .ok pieces ∧ Means pieces ss := by
  induction ss with
  | nil => exact absurd rfl hss
  | cons s ss ih =>
      obtain ⟨hs, hrest⟩ := List.forall_mem_cons.1 hseg
      by_cases hdepth : s = anyDepth
      · subst hdepth
        by_cases hnil : ss = []
        · subst hnil
          exact ⟨[.contents], rfl, .contents⟩
        · obtain ⟨pieces, hpieces, hmeans⟩ := ih hnil hrest
          exact ⟨.inner :: pieces, by simp [laterPieces, hnil, hpieces, Except.map],
            hmeans.inner hnil⟩
      · obtain ⟨own, hown, hreads⟩ := exists_ownPieces hs hdepth
        by_cases hnil : ss = []
        · subst hnil
          have hlater : laterPieces true ([] : List Text) = .ok [] := rfl
          exact ⟨.char '/' :: own ++ [.below],
            by simpa using laterPieces_cons true hdepth hown hlater, .last hdepth hreads⟩
        · obtain ⟨pieces, hpieces, hmeans⟩ := ih hnil hrest
          exact ⟨.char '/' :: own ++ pieces,
            by simpa [hnil] using laterPieces_cons true hdepth hown hpieces,
            .segment hdepth hreads hmeans⟩

theorem rowReads_slash {pieces : List Piece} :
    RowReads (.char '/' :: pieces) ('/' :: a) ↔ RowReads pieces a := by
  constructor
  · rintro ⟨_, c, rfl, h, heq⟩
    obtain rfl : a = c := (List.cons.inj heq).2
    exact h
  · intro h
    exact ⟨['/'], a, rfl, h, rfl⟩

theorem rowReads_leading {pieces : List Piece} :
    RowReads (.leading :: pieces) a ↔ RowReads (.inner :: .char '/' :: pieces) ('/' :: a) := by
  constructor
  · rintro ⟨_, c, rfl | ⟨b, hne, hb, rfl⟩, h, rfl⟩
    · exact ⟨[], _, .inl rfl, rowReads_slash.2 h, rfl⟩
    · exact ⟨'/' :: b, _, .inr ⟨b, hne, hb, rfl⟩, rowReads_slash.2 h, by simp⟩
  · rintro ⟨_, _, hinner, ⟨_, c, rfl, h, rfl⟩, heq⟩
    rcases hinner with rfl | ⟨b, hne, hb, rfl⟩
    · obtain rfl : a = c := (List.cons.inj heq).2
      exact ⟨[], _, .inl rfl, h, rfl⟩
    · obtain rfl : a = b ++ ('/' :: c) := (List.cons.inj heq).2
      exact ⟨b ++ ['/'], c, .inr ⟨b, hne, hb, rfl⟩, h, by simp⟩

theorem exists_rowPieces (hseg : ∀ s ∈ ss, IsSegment s)
    (hapart : ss.IsChain fun s t => ¬(s = anyDepth ∧ t = anyDepth))
    (hnamed : ∃ s ∈ ss, s ≠ anyDepth) :
    ∃ pieces, rowPieces ss = .ok pieces ∧
      ∀ (ps : List Text) (e : Text), (∀ p ∈ ps, IsEntry p) → (e = [] ∨ e = ['/']) →
        ∀ a, '/' :: a = slashed ps ++ e → (RowReads pieces a ↔
          ∃ front back, ps = front ++ back ∧ Takes (e ≠ [] ∧ back = []) ss front) := by
  have hss : ss ≠ [] := by
    rintro rfl
    simp at hnamed
  obtain ⟨all, hall, hmeans⟩ := exists_laterPieces hss hseg
  suffices h : ∃ pieces, rowPieces ss = .ok pieces ∧
      ∀ a, RowReads pieces a ↔ RowReads all ('/' :: a) by
    obtain ⟨pieces, hpieces, hsame⟩ := h
    refine ⟨pieces, hpieces, fun ps e hps he a ha => ?_⟩
    rw [hsame, ha, hmeans.reads ps e hps he]
  -- The pieces of a first segment differ only in the slash before it.
  have hfirst : ∀ s rest, (∀ t ∈ s :: rest, IsSegment t) → s ≠ anyDepth →
      ∃ pieces, laterPieces false (s :: rest) = .ok pieces ∧
        laterPieces true (s :: rest) = .ok (.char '/' :: pieces) := by
    intro s rest hseg hdepth
    obtain ⟨hs, hrest⟩ := List.forall_mem_cons.1 hseg
    obtain ⟨own, hown, -⟩ := exists_ownPieces hs hdepth
    obtain ⟨later, hlater⟩ : ∃ later, laterPieces true rest = .ok later := by
      by_cases hnil : rest = []
      · exact ⟨[], by rw [hnil]; rfl⟩
      · obtain ⟨later, hlater, -⟩ := exists_laterPieces hnil hrest
        exact ⟨later, hlater⟩
    exact ⟨_, laterPieces_cons false hdepth hown hlater, laterPieces_cons true hdepth hown hlater⟩
  cases ss with
  | nil => exact absurd rfl hss
  | cons s rest =>
      by_cases hdepth : s = anyDepth
      · subst hdepth
        cases rest with
        | nil => simp at hnamed
        | cons t rest =>
            have ht : t ≠ anyDepth := fun heq => by simp [heq] at hapart
            obtain ⟨pieces, hplain, hslash⟩ :=
              hfirst t rest (List.forall_mem_cons.1 hseg).2 ht
            refine ⟨.leading :: pieces, by simp [rowPieces, hplain, Except.map], fun a => ?_⟩
            rw [laterPieces, if_pos rfl, List.isEmpty_cons, if_neg Bool.false_ne_true,
              hslash] at hall
            cases hall
            exact rowReads_leading
      · obtain ⟨pieces, hplain, hslash⟩ := hfirst s rest hseg hdepth
        refine ⟨pieces, by rw [rowPieces, if_neg hdepth, hplain], fun a => ?_⟩
        cases hslash.symm.trans hall
        exact rowReads_slash.symm

end SourceScan.Glob
